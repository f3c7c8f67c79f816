import Mathlib.Data.Bool.AllAny
import TinyScript.Program.Sexpr
import TinyScript.Proofs.Text.Quoted

/-!
# The items of a list are read back

The items of a list are separated by spaces, and a space or a closing bracket belongs to an item only
inside of brackets or quotes of the item itself.

* `Items.first`        the text up to the first separator that belongs to no item
* `Items.Passes`       a text that has no such separator
* `Items.passes_sexpr` a list of such texts is one again
* `sexpr_injective`    a list is read back from its text
-/

namespace TinyScript

namespace Items

/-- where a character stands: outside of quotes, in quotes, or behind a backslash in quotes -/
inductive Mode where
  | plain
  | quoted
  | escaped

/-- the text up to the first space or closing bracket outside of `depth` brackets and of quotes -/
def first : (depth : Nat) → Mode → List Char → List Char
  | _, _, [] => []
  | depth, .escaped, c :: cs => c :: first depth .quoted cs
  | depth, .quoted, c :: cs =>
    c :: first depth (if c = '\\' then .escaped else if c = '"' then .plain else .quoted) cs
  | depth, .plain, c :: cs =>
    if c = '(' then c :: first (depth + 1) .plain cs
    else if c = ')' then if depth = 0 then [] else c :: first (depth - 1) .plain cs
    else if c = '"' then c :: first depth .quoted cs
    else if c = ' ' ∧ depth = 0 then []
    else c :: first depth .plain cs

/-- No character of the text separates items. -/
def Passes (cs : List Char) : Prop :=
  ∀ depth rest, first depth .plain (cs ++ rest) = cs ++ first depth .plain rest

def IsSeparator (c : Char) : Prop := c = ' ' ∨ c = ')'

theorem first_separator {c : Char} (h : IsSeparator c) (rest : List Char) :
    first 0 .plain (c :: rest) = [] := by
  rcases h with rfl | rfl <;> rfl

/-- An item is told from what follows it. -/
theorem Passes.eq_of_append {a b r s : List Char} {c d : Char} (ha : Passes a) (hb : Passes b)
    (hc : IsSeparator c) (hd : IsSeparator d) (h : a ++ c :: r = b ++ d :: s) :
    a = b ∧ c :: r = d :: s := by
  have hab : a = b := by
    have hfirst := congrArg (first 0 .plain) h
    rwa [ha, hb, first_separator hc, first_separator hd, List.append_nil, List.append_nil] at hfirst
  subst hab
  exact ⟨rfl, List.append_cancel_left h⟩

/-! ### Words -/

/-- a character that means nothing to the reader -/
def IsPlain (c : Char) : Prop := c ≠ '(' ∧ c ≠ ')' ∧ c ≠ '"' ∧ c ≠ ' '

instance (c : Char) : Decidable (IsPlain c) := inferInstanceAs (Decidable (_ ∧ _))

def IsWord (cs : List Char) : Prop := ∀ c ∈ cs, IsPlain c

instance (cs : List Char) : Decidable (IsWord cs) :=
  decidable_of_iff (cs.all fun c => IsPlain c) List.all_iff_forall_prop

theorem passes_word {cs : List Char} (h : IsWord cs) : Passes cs := by
  intro depth rest
  induction cs with
  | nil => rfl
  | cons c cs ih =>
    obtain ⟨hopen, hclose, hquote, hspace⟩ := h c List.mem_cons_self
    have hblank : ¬ (c = ' ' ∧ depth = 0) := fun heq => hspace heq.1
    rw [List.cons_append, first, if_neg hopen, if_neg hclose, if_neg hquote, if_neg hblank,
      ih fun d hd => h d (List.mem_cons_of_mem c hd)]
    rfl

/-! ### Quotes -/

theorem first_quoted_of_ne {c : Char} (hquote : c ≠ '"') (hslash : c ≠ '\\') (depth : Nat)
    (rest : List Char) : first depth .quoted (c :: rest) = c :: first depth .quoted rest := by
  rw [first, if_neg hslash, if_neg hquote]

theorem first_quoted_append {cs : List Char} (h : ∀ c ∈ cs, c ≠ '"' ∧ c ≠ '\\') (depth : Nat)
    (rest : List Char) : first depth .quoted (cs ++ rest) = cs ++ first depth .quoted rest := by
  induction cs with
  | nil => rfl
  | cons c cs ih =>
    obtain ⟨hquote, hslash⟩ := h c List.mem_cons_self
    rw [List.cons_append, first_quoted_of_ne hquote hslash,
      ih fun d hd => h d (List.mem_cons_of_mem c hd)]
    rfl

theorem first_escaped (c : Char) (depth : Nat) (rest : List Char) :
    first depth .quoted (Text.escaped c ++ rest) = Text.escaped c ++ first depth .quoted rest := by
  rcases Text.escaped_cases c with ⟨letter, -, h⟩ | ⟨hquote, hslash, h⟩ | h
  · rw [h]
    rfl
  · rw [h]
    exact first_quoted_of_ne hquote hslash depth rest
  · have hdigits : ∀ d ∈ '\x7b' :: (Text.hex c.toNat ++ ['\x7d']), d ≠ '"' ∧ d ≠ '\\' := by
      have hhex (n : Nat) : ∀ d ∈ Text.hex n, d ≠ '"' ∧ d ≠ '\\' := fun d hd =>
        ⟨fun heq => Text.not_mem_hex (by decide) n (heq ▸ hd),
          fun heq => Text.not_mem_hex (by decide) n (heq ▸ hd)⟩
      intro d hd
      rcases List.mem_cons.mp hd with rfl | hd
      · decide
      · rcases List.mem_append.mp hd with hd | hd
        · exact hhex _ d hd
        · rw [List.mem_singleton.mp hd]
          decide
    rw [h]
    show '\\' :: 'u' :: first depth .quoted ('\x7b' :: (Text.hex c.toNat ++ ['\x7d']) ++ rest) = _
    rw [first_quoted_append hdigits]
    rfl

theorem first_quotedChars (cs : List Char) (depth : Nat) (rest : List Char) :
    first depth .quoted (Text.quotedChars cs ++ rest) =
      Text.quotedChars cs ++ first depth .quoted rest := by
  induction cs with
  | nil => rfl
  | cons c cs ih => rw [Text.quotedChars_cons, List.append_assoc, first_escaped, ih, List.append_assoc]

theorem passes_quoted (s : String) : Passes (Text.quoted s).toList := by
  intro depth rest
  rw [Text.quoted, String.toList_ofList]
  show '"' :: first depth .quoted (Text.quotedChars s.toList ++ ['"'] ++ rest) = _
  rw [List.append_assoc, first_quotedChars, List.cons_append, List.append_assoc]
  rfl

/-! ### Lists -/

/-- the items with a space in front of each -/
def spaced (items : List String) : List Char := items.flatMap fun i => ' ' :: i.toList

theorem toList_intercalate (head : String) (items : List String) :
    (" ".intercalate (head :: items)).toList = head.toList ++ spaced items := by
  induction items generalizing head with
  | nil => simp [spaced]
  | cons i items ih =>
    rw [String.intercalate_cons_cons, String.toList_append, String.toList_append, ih]
    simp [spaced]

theorem toList_sexpr (head : String) (items : List String) :
    (sexpr head items).toList = '(' :: (head.toList ++ (spaced items ++ [')'])) := by
  rw [sexpr, String.toList_append, String.toList_append, toList_intercalate, List.append_assoc,
    List.append_assoc]
  rfl

theorem spaced_cons (i : String) (items : List String) :
    spaced (i :: items) = ' ' :: (i.toList ++ spaced items) := rfl

/-- Inside of brackets the spaces between items separate nothing. -/
theorem first_spaced {items : List String} (h : ∀ i ∈ items, Passes i.toList) (depth : Nat)
    (rest : List Char) : first (depth + 1) .plain (spaced items ++ rest) =
      spaced items ++ first (depth + 1) .plain rest := by
  induction items with
  | nil => rfl
  | cons i items ih =>
    rw [spaced_cons, List.cons_append, List.append_assoc]
    show ' ' :: first (depth + 1) .plain (i.toList ++ (spaced items ++ rest)) = _
    rw [h i List.mem_cons_self, ih fun j hj => h j (List.mem_cons_of_mem i hj), ← List.append_assoc]
    rfl

theorem passes_sexpr {head : String} {items : List String} (hhead : Passes head.toList)
    (hitems : ∀ i ∈ items, Passes i.toList) : Passes (sexpr head items).toList := by
  intro depth rest
  rw [toList_sexpr]
  show '(' :: first (depth + 1) .plain (head.toList ++ (spaced items ++ [')']) ++ rest) = _
  rw [List.append_assoc, List.append_assoc, hhead, first_spaced hitems]
  show '(' :: (head.toList ++ (spaced items ++ ')' :: first depth .plain rest)) = _
  rw [List.cons_append, List.append_assoc, List.append_assoc]
  rfl

/-- By induction over the items; each of them ends where the next space or the bracket stands. -/
theorem eq_of_spaced {a b : String} {as bs : List String} (ha : ∀ i ∈ a :: as, Passes i.toList)
    (hb : ∀ i ∈ b :: bs, Passes i.toList)
    (h : a.toList ++ (spaced as ++ [')']) = b.toList ++ (spaced bs ++ [')'])) : a = b ∧ as = bs := by
  have hsplit (items : List String) : ∃ c rest, IsSeparator c ∧ spaced items ++ [')'] = c :: rest := by
    cases items with
    | nil => exact ⟨')', [], .inr rfl, rfl⟩
    | cons i items => exact ⟨' ', _, .inl rfl, rfl⟩
  induction as generalizing a b bs with
  | nil =>
    obtain ⟨d, s, hd, hbs⟩ := hsplit bs
    rw [hbs] at h
    obtain ⟨heq, hrest⟩ := Passes.eq_of_append (ha a List.mem_cons_self) (hb b List.mem_cons_self)
      (.inr rfl) hd h
    cases bs with
    | nil => exact ⟨String.toList_inj.mp heq, rfl⟩
    | cons b' bs =>
      rw [← hbs] at hrest
      cases hrest
  | cons a' as ih =>
    obtain ⟨d, s, hd, hbs⟩ := hsplit bs
    rw [hbs] at h
    obtain ⟨heq, hrest⟩ := Passes.eq_of_append (ha a List.mem_cons_self) (hb b List.mem_cons_self)
      (.inl rfl) hd h
    cases bs with
    | nil =>
      rw [← hbs] at hrest
      cases hrest
    | cons b' bs =>
      have htail : a'.toList ++ (spaced as ++ [')']) = b'.toList ++ (spaced bs ++ [')']) := by
        rw [← List.append_assoc, ← List.append_assoc]
        exact (List.cons.inj (hrest.trans hbs.symm)).2
      obtain ⟨rfl, rfl⟩ := ih (fun i hi => ha i (List.mem_cons_of_mem a hi))
        (fun i hi => hb i (List.mem_cons_of_mem b hi)) htail
      exact ⟨String.toList_inj.mp heq, rfl⟩

end Items

/-- **A list is read back from its text**, if its head and its items are told from what follows them. -/
theorem sexpr_injective {head head' : String} {items items' : List String}
    (h : ∀ i ∈ head :: items, Items.Passes i.toList) (h' : ∀ i ∈ head' :: items', Items.Passes i.toList)
    (heq : sexpr head items = sexpr head' items') : head = head' ∧ items = items' := by
  have htext := congrArg String.toList heq
  rw [Items.toList_sexpr, Items.toList_sexpr] at htext
  exact Items.eq_of_spaced h h' (List.cons.inj htext).2

end TinyScript
