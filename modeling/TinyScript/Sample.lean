/-!
# The sample

The program that is taken when no file is named.
-/

namespace TinyScript.Sample

def name : String := "<default>"

def source : String :=
  "print(\"if without else\");
a = 5;
b = 10;
if (a < b) \x7b
    print(1);
\x7d

print(\"if with else\");
c = 15;
if (c < 10) \x7b
    print(0);
\x7d else \x7b
    print(2);
\x7d

print(\"while loop\");
i = 0;
while (i < 3) \x7b
    print(i);
    i = i + 1;
\x7d
"

end TinyScript.Sample
