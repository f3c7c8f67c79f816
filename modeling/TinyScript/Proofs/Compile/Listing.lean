import TinyScript.Proofs.Compile.Labels
import TinyScript.Proofs.Compile.Simulation

/-!
# Where everything lies in a listing

A listing that is loaded has the statements behind the first instruction, then the routines, the literals,
the variables, the buffer and the stack.

* `Plan.front`          what comes before the variables
* `Plan.layout`         where the parts of a listing lie
* `loaded_layout`       the memory of a listing holds what its layout says
* `simulates_start`     behind the first instruction the machine follows the run of the program
-/

namespace TinyScript

open Assembly

namespace Plan

def literals (entries : List PoolEntry) : List Line :=
  entries.flatMap fun e => Fragment.literal e.label e.bytes.toList ++ [.blank]

def slotLines (names : List String) : List Line :=
  names.flatMap fun name => Fragment.variableSlot (slotLabel name)

def body (statements : List Line) : List Line :=
  Fragment.programStart ++ statements ++ Fragment.programEnd

def front (plan : Plan) (statements : List Line) : List Line :=
  body statements ++ (.blank :: Fragment.printInt) ++ (.blank :: Fragment.divisionTrap) ++
    (.blank :: literals plan.pool.entries)

def back (plan : Plan) (stackWords : Nat) : List Line :=
  slotLines plan.names ++ (if plan.storage.isEmpty then [] else [.blank]) ++
    Fragment.runtimeData stackWords

def stackWords (p : Program) : Nat := max 1 (Stmt.stackDepthBlock p)

/-- the parts of the listing of a program with these statements -/
def layout (plan : Plan) (p : Program) (statements : List Line) : Layout where
  image := Image.ofLines (plan.front statements ++ plan.back (stackWords p))
  plan := plan
  slots := size (plan.front statements)
  stackWords := stackWords p
  boundary x := x ∈ plan.blockBoundaries plan.labels.allocated 1 p

theorem listing_parts {plan : Plan} {p : Program} {lines : List Line}
    (h : plan.listing p = .ok lines) :
    ∃ statements, plan.blockCode plan.labels.allocated p = .ok statements ∧
      lines = plan.front statements ++ plan.back (stackWords p) := by
  obtain ⟨statements, hs, rfl⟩ := listing_ok h
  refine ⟨statements, hs, ?_⟩
  simp [supplement, front, back, body, literals, slotLines, stackWords]

/-! ### Sizes -/

theorem size_slotLines (names : List String) : size (slotLines names) = names.length := by
  induction names with
  | nil => rfl
  | cons name names ih =>
    rw [slotLines, List.flatMap_cons, size_append]
    show 1 + size (slotLines names) = names.length + 1
    rw [ih, Nat.add_comm]

theorem size_bytes (bytes : List UInt8) :
    size (bytes.map fun b => .data (Int32.ofNat b.toNat) 1) = bytes.length := by
  induction bytes with
  | nil => rfl
  | cons b bytes ih =>
    show 1 + size (bytes.map _) = bytes.length + 1
    rw [ih, Nat.add_comm]

theorem size_literal (name : String) (bytes : List UInt8) :
    size (Fragment.literal name bytes) = bytes.length + 1 := by
  rw [Fragment.literal, size_append, size_cons, size_bytes]
  show 0 + bytes.length + 1 = _
  rw [Nat.zero_add]

theorem size_back (plan : Plan) (n : Nat) :
    size (plan.back n) = plan.names.length + (Fragment.bufferWords + n + 1) := by
  have hgap : size (if plan.storage.isEmpty then [] else [Line.blank]) = 0 := by split <;> rfl
  have hdata : size (Fragment.runtimeData n) = Fragment.bufferWords + n + 1 := by
    show 0 + (Fragment.bufferWords + (0 + (n + (0 + (1 + 0))))) = _
    omega
  rw [back, size_append, size_append, size_slotLines, hgap, hdata, Nat.add_zero]

theorem size_body (statements : List Line) : size (body statements) = size statements + 2 := by
  rw [body, size_append, size_append]
  show 1 + size statements + 1 = _
  omega

/-- the words of a listing, the last of which marks the top of the stack -/
theorem size_layout (plan : Plan) (p : Program) (statements : List Line) :
    size (plan.front statements ++ plan.back (stackWords p)) =
      (plan.layout p statements).top + 1 := by
  rw [size_append, size_back]
  show _ = size (plan.front statements) + plan.names.length + Fragment.bufferWords + stackWords p + 1
  omega

/-! ### Variables and literals -/

theorem instr_not_mem_back (plan : Plan) (n : Nat) : ∀ i, .instr i ∉ plan.back n := by
  intro i h
  simp [back, slotLines, Fragment.variableSlot, Fragment.runtimeData] at h

theorem address?_of_slotLines {image : Image} {a : Nat} {names : List String}
    (h : Placed image a (slotLines names)) {name : String} (hn : name ∈ names) :
    image.address? (slotLabel name) = some (a + names.idxOf name) ∧
      image.words[a + names.idxOf name]? = some 0 := by
  induction names generalizing a with
  | nil => cases hn
  | cons other names ih =>
    obtain ⟨haddress, hword, hrest⟩ := h
    by_cases he : other = name
    · subst he
      rw [List.idxOf_cons_self]
      exact ⟨haddress, hword 0 Nat.one_pos⟩
    · rw [List.idxOf_cons_ne _ he, Nat.succ_eq_add_one, Nat.add_comm (names.idxOf name),
        ← Nat.add_assoc]
      exact ih hrest ((List.mem_cons.mp hn).resolve_left (Ne.symm he))

theorem placed_of_literals {image : Image} {a : Nat} {entries : List PoolEntry}
    (h : Placed image a (literals entries)) {e : PoolEntry} (he : e ∈ entries) :
    ∃ t, a ≤ t ∧ t + e.bytes.toList.length < a + size (literals entries) ∧
      Placed image t (Fragment.literal e.label e.bytes.toList) := by
  induction entries generalizing a with
  | nil => cases he
  | cons other entries ih =>
    rw [literals, List.flatMap_cons, placed_append, placed_append, size_append, size_literal] at h
    obtain ⟨⟨hfirst, -⟩, hrest⟩ := h
    rw [literals, List.flatMap_cons, size_append, size_append, size_literal]
    rcases List.mem_cons.mp he with rfl | he
    · exact ⟨a, Nat.le_refl a, by omega, hfirst⟩
    · obtain ⟨t, hle, hlt, hp⟩ := ih hrest he
      rw [literals] at hlt
      exact ⟨t, by omega, by omega, hp⟩

/-! ### The layout of a listing -/

section

variable {plan : Plan} {p : Program} {statements : List Line}

theorem size_printInt_pos : 0 < size Fragment.printInt := by decide +kernel

theorem placed_front {image : Image} (h : Placed image 0 (plan.front statements)) :
    Placed image 0 (body statements) ∧
      (∃ a, Placed image a Fragment.printInt) ∧
      (∃ a, size statements + 2 < a ∧ Placed image a Fragment.divisionTrap) ∧
      ∃ a, 0 < a ∧ a + size (literals plan.pool.entries) = size (plan.front statements) ∧
        Placed image a (literals plan.pool.entries) := by
  have hpos := size_printInt_pos
  simp only [front, placed_append, size_append, size_body, size_cons, Line.size, Nat.zero_add] at h ⊢
  obtain ⟨⟨⟨hbody, hprint⟩, htrap⟩, hliterals⟩ := h
  exact ⟨hbody, ⟨_, hprint⟩, ⟨_, by omega, htrap⟩, ⟨_, by omega, rfl, hliterals⟩⟩

/-- **The memory of a listing** holds the routines and the data where the layout says. -/
theorem loaded_layout
    (hp : Placed (plan.layout p statements).image 0
      (plan.front statements ++ plan.back (stackWords p)))
    (hs : plan.blockCode plan.labels.allocated p = .ok statements)
    (hlimit : size (plan.front statements ++ plan.back (stackWords p)) < Machine.addressLimit) :
    (plan.layout p statements).Loaded := by
  rw [size_layout] at hlimit
  obtain ⟨hfront, hback⟩ := placed_append.mp hp
  obtain ⟨-, hprint, ⟨trap, htrap, hptrap⟩, first, hfirst, hend, hliterals⟩ := placed_front hfront
  rw [Nat.zero_add, back, placed_append, placed_append] at hback
  obtain ⟨⟨hslots, -⟩, hdata⟩ := hback
  have hgap : size (if plan.storage.isEmpty then [] else [Line.blank]) = 0 := by split <;> rfl
  rw [size_append, size_slotLines, hgap, Nat.add_zero] at hdata
  obtain ⟨hbuffer, -, hstack, -, htop, -⟩ := hdata
  refine ⟨?_, ?_, by omega, fun name hn => (address?_of_slotLines hslots hn).1, fun e he => ?_,
    hbuffer, hstack, htop, hprint, trap, hptrap, fun x hx hb => ?_⟩
  · rw [← size_layout]
    exact Image.size_words _
  · rw [← size_layout]
    exact Image.size_code _
  · obtain ⟨t, hle, hlt, hpe⟩ := placed_of_literals hliterals he
    exact ⟨t, by omega, by rw [hend] at hlt; exact hlt, hpe⟩
  · have hle := (blockBoundaries_bounds p hs hb).2
    omega

theorem follows_layout
    (hp : Placed (plan.layout p statements).image 0 (body statements))
    (hs : plan.blockCode plan.labels.allocated p = .ok statements) :
    Follows (plan.layout p statements) 1 p := by
  rw [body, placed_append, placed_append] at hp
  obtain ⟨⟨-, hstatements⟩, hend⟩ := hp
  rw [size_append, Nat.zero_add] at hend
  have hblock : (plan.layout p statements).BlockAt plan.labels.allocated 1 p (1 + size statements) :=
    ⟨⟨statements, hs, hstatements, rfl⟩, fun x _ _ hb => hb, Nat.le_max_right _ _⟩
  have hfollows := Follows.append hblock (.done hend.1)
  rwa [List.append_nil] at hfollows

end

end Plan

/-! ### The start of a program -/

def Assembly.Image.initial (image : Image) : Machine := ⟨0, Vector.replicate 32 0, image.words, .empty⟩

def Assembly.Layout.opened (L : Layout) : Machine :=
  (L.image.initial.set .stack (Int32.ofNat L.top)).goTo 1

theorem get_initial (image : Image) (r : Reg) : image.initial.get r = 0 := by
  cases r with
  | named name => rfl
  | numbered n => exact Vector.getElem_replicate n.isLt

namespace Plan

variable {plan : Plan} {p : Program} {statements : List Line}

theorem represents_opened (hL : (plan.layout p statements).Loaded)
    (hp : Placed (plan.layout p statements).image (plan.layout p statements).slots
      (slotLines plan.names)) :
    Represents (plan.layout p statements) .empty {} (plan.layout p statements).opened := by
  refine ⟨⟨?_, ?_, fun x _ => rfl⟩, ?_, fun name hn => ⟨0, ?_, .unset⟩, fun _ => rfl,
    Sink.reliable_empty⟩
  · rw [Layout.opened, Machine.get_goTo, Machine.get_set (by simp), if_neg (by decide), get_initial]
  · exact hL.words
  · rw [Layout.opened, Machine.get_goTo, Machine.get_set (by simp), if_pos rfl]
  · exact (address?_of_slotLines hp hn).2

end Plan

/-- the addresses at which the statements of a program begin and end -/
def Program.boundaries (p : Program) : List Nat :=
  p.plan.blockBoundaries p.plan.labels.allocated 1 p

/-- the layout of the listing of a program, and how the machine starts there -/
structure Opens (p : Program) (lines : List Line) (L : Layout) : Prop where
  image : L.image = Image.ofLines lines
  plan : L.plan = p.plan
  stackWords : L.stackWords = Plan.stackWords p
  boundary : ∀ x, L.boundary x ↔ x ∈ p.boundaries
  loaded : L.Loaded
  code : ∀ x i, L.image.code[x]? = some (some i) → x < L.slots
  entry : L.image.address? Fragment.entryLabel = some 0
  opening : L.image.code[0]? = some (some (.la .stack Fragment.stackTopLabel))
  simulates : Simulates L (p.start .empty {}) L.opened

/-- **A listing that is loaded** follows the run of its program from the second instruction on. -/
theorem opens_of_compile {p : Program} {lines : List Line} (h : p.compile = .ok lines)
    (hsize : size lines < Machine.addressLimit) : ∃ L, Opens p lines L := by
  have hnodup := Plan.nodup_labels_listing (Plan.regular_plan p) h
  obtain ⟨statements, hs, rfl⟩ := Plan.listing_parts h
  have hp := placed_ofLines hnodup
  have hL : (p.plan.layout p statements).Loaded := Plan.loaded_layout hp hs hsize
  obtain ⟨hfront, hback⟩ := placed_append.mp hp
  have hbody := (Plan.placed_front hfront).1
  rw [Nat.zero_add, Plan.back, placed_append, placed_append] at hback
  have hstart := hbody
  rw [Plan.body, placed_append, placed_append] at hstart
  refine ⟨p.plan.layout p statements, rfl, rfl, rfl, fun x => Iff.rfl, hL,
    fun x i hi => Image.lt_size_of_code (Plan.instr_not_mem_back _ _) hi, hstart.1.1.1,
    hstart.1.1.2.1, ⟨?_, ?_⟩⟩
  · exact Plan.follows_layout hbody hs
  · exact Plan.represents_opened hL hback.1.1

section

variable {p : Program} {lines : List Line} {L : Layout}

theorem Opens.regular (h : Opens p lines L) : L.plan.Regular := h.plan ▸ Plan.regular_plan p

theorem Opens.start? (h : Opens p lines L) :
    Machine.start? (Image.ofLines lines) Fragment.entryLabel = some L.image.initial := by
  unfold Machine.start?
  rw [← h.image, h.entry]
  rfl

theorem Opens.step (h : Opens p lines L) :
    Machine.step L.image L.image.initial = .running L.opened := by
  have hopening : L.image.code[L.image.initial.pc]? =
      some (some (.la .stack Fragment.stackTopLabel)) := h.opening
  unfold Machine.step
  rw [hopening]
  show Machine.goOn ((L.image.address? Fragment.stackTopLabel).map _) = _
  rw [h.loaded.top]
  rfl

theorem Opens.run (h : Opens p lines L) (k : Nat) :
    Machine.run (Image.ofLines lines) (k + 1) L.image.initial =
      Machine.run L.image k L.opened := by
  rw [← h.image, Machine.run, h.step]

end

end TinyScript
