import TinyScript.Labels
import TinyScript.Plan.Numbering

/-!
# The texts of a program

The texts that are assigned or printed, in bytes and with the labels at which they are stored.  A map from the
text and the place where it occurs finds the entry again.

* `Pool.insert`     a text with its entry, a new one if it has none at its site
* `Pool.entry?`     the entry of a text at a site
-/

namespace TinyScript

/-- where a text occurs: it is assigned to a variable or it is printed -/
inductive Site where
  | assigned (name : String)
  | printed
deriving DecidableEq

structure PoolEntry where
  label : String
  bytes : ByteArray

/-- The entries and the map to their indices.  Every entry has one key, and it holds the text of this key. -/
structure Pool where
  entries : List PoolEntry
  bySite : List ((Site × String) × Nat)
  numbered : Numbering bySite entries.length
  inStep : ∀ site text i, ((site, text), i) ∈ bySite →
    (entries[i]?).map PoolEntry.bytes = some text.toUTF8

namespace Pool

def stem : String := "str"

def empty : Pool := ⟨[], [], .nil, fun _ _ _ h => nomatch h⟩

def index? (pool : Pool) (site : Site) (text : String) : Option Nat :=
  pool.bySite.lookup (site, text)

theorem index?_lt {pool : Pool} {site : Site} {text : String} {i : Nat}
    (h : pool.index? site text = some i) : i < pool.entries.length :=
  pool.numbered.lt_of_mem (Numbering.mem_of_lookup h)

/-- an entry with a new text for its site, behind all others -/
def push (pool : Pool) (label : String) (site : Site) (text : String)
    (h : pool.index? site text = none) : Pool where
  entries := pool.entries ++ [⟨label, text.toUTF8⟩]
  bySite := ((site, text), pool.entries.length) :: pool.bySite
  numbered := by
    rw [List.length_append, List.length_singleton]
    exact pool.numbered.cons h
  inStep site' text' i hi := by
    rcases List.mem_cons.mp hi with heq | hm
    · obtain ⟨hkey, rfl⟩ := Prod.mk.inj heq
      obtain ⟨-, rfl⟩ := Prod.mk.inj hkey
      rw [List.getElem?_concat_length]
      rfl
    · rw [List.getElem?_append_left (pool.numbered.lt_of_mem hm)]
      exact pool.inStep site' text' i hm

/-- A text gets an entry with a fresh label when it first occurs at its site. -/
def insert (pool : Pool) (labels : Labels) (site : Site) (text : String) : Nat × Pool × Labels :=
  match h : pool.index? site text with
  | some i => (i, pool, labels)
  | none => (pool.entries.length, pool.push (labels.fresh stem).1 site text h, (labels.fresh stem).2)

def entry? (pool : Pool) (site : Site) (text : String) : Option PoolEntry :=
  match h : pool.index? site text with
  | some i => some (pool.entries.get ⟨i, index?_lt h⟩)
  | none => none

/-! ### What an insertion does, and what is found -/

variable {pool : Pool} {labels : Labels} {site : Site} {text : String}

theorem insert_of_some {i : Nat} (h : pool.index? site text = some i) :
    pool.insert labels site text = (i, pool, labels) := by
  unfold insert
  split
  · next j hj => rw [Option.some.inj (hj.symm.trans h)]
  · next hn => cases hn.symm.trans h

theorem insert_of_none (h : pool.index? site text = none) :
    pool.insert labels site text = (pool.entries.length,
      pool.push (labels.fresh stem).1 site text h, (labels.fresh stem).2) := by
  unfold insert
  split
  · next i hi => cases hi.symm.trans h
  · rfl

theorem entry?_eq_some {e : PoolEntry} :
    pool.entry? site text = some e ↔
      ∃ i, pool.index? site text = some i ∧ pool.entries[i]? = some e := by
  unfold entry?
  split
  · next i hi =>
    rw [List.get_eq_getElem, ← List.getElem?_eq_getElem (index?_lt hi)]
    constructor
    · exact fun h => ⟨i, hi, h⟩
    · rintro ⟨j, hj, h⟩
      obtain rfl := Option.some.inj (hi.symm.trans hj)
      exact h
  · next hn =>
    constructor
    · intro h
      cases h
    · rintro ⟨j, hj, -⟩
      cases hn.symm.trans hj

theorem mem_of_entry? {e : PoolEntry} (h : pool.entry? site text = some e) : e ∈ pool.entries := by
  obtain ⟨i, -, he⟩ := entry?_eq_some.mp h
  exact List.mem_of_getElem? he

/-- what is found for a text has its bytes -/
theorem bytes_of_entry? {e : PoolEntry} (h : pool.entry? site text = some e) :
    e.bytes = text.toUTF8 := by
  obtain ⟨i, hi, he⟩ := entry?_eq_some.mp h
  have hbytes := pool.inStep site text i (Numbering.mem_of_lookup hi)
  rw [he] at hbytes
  exact Option.some.inj hbytes

theorem isSome_entry? : (pool.entry? site text).isSome = (pool.index? site text).isSome := by
  cases h : pool.index? site text with
  | some i =>
    rw [entry?_eq_some.mpr ⟨i, h, List.getElem?_eq_getElem (index?_lt h)⟩]
    rfl
  | none =>
    rw [Option.isSome_none, Option.isSome_eq_false_iff, Option.isNone_iff_eq_none]
    refine Option.eq_none_iff_forall_ne_some.mpr fun e he => ?_
    obtain ⟨i, hi, -⟩ := entry?_eq_some.mp he
    cases hi.symm.trans h

end Pool

end TinyScript
