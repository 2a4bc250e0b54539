import Mathlib.Data.Finset.Basic
import Mathlib.Data.List.Basic
import Mathlib.Tactic.Common

/-!
# Object heaps and allocation ledgers

An OBJECT HEAP is what a memory-safe machine works on: a list of objects, each with a size
and a liveness bit; a pointer is an object and an integer offset.  An allocation LEDGER is
what a checker keeps instead: a counter, a size for each id, and the set of released ids.

**`Ledger.Represents`** relates the two.  Allocation and release keep the relation
(`represents_alloc`, `represents_free`), and the checks a ledger can make are exact:
an access is valid on the heap iff the ledger says so (`valid_iff`), and a release succeeds
iff the id is not in the released set (`free_isSome_iff`).
-/

namespace ObjectHeap

structure Obj where
  size : Nat
  live : Bool
deriving DecidableEq, Repr

/-- Objects are numbered by their position. -/
abbrev Heap := List Obj

/-- An object and an offset into it. -/
abbrev Ptr := Nat × Int

/-- A new live object at the end. -/
def Heap.alloc (h : Heap) (size : Nat) : Heap := h ++ [⟨size, true⟩]

/-- Release the object of a pointer; releasing a dead or absent object is an error. -/
def Heap.free (h : Heap) (p : Ptr) : Option Heap :=
  match h[p.1]? with
  | some o => if o.live then some (h.set p.1 { o with live := false }) else none
  | none => none

/-- `n` bytes at `p` lie inside a live object. -/
def Heap.valid (h : Heap) (p : Ptr) (n : Nat) : Bool :=
  match h[p.1]? with
  | some o => o.live && decide (0 ≤ p.2) && decide (p.2 + n ≤ o.size)
  | none => false

/-- Sizes, released ids and the next id to hand out. -/
structure Ledger where
  counter : Nat
  sizes   : Nat → Option Int
  freed   : Finset Nat

/-- Hand out the counter as the id of an allocation of `size` bytes. -/
def Ledger.alloc (l : Ledger) (size : Nat) : Ledger :=
  ⟨l.counter + 1, Function.update l.sizes l.counter (some (size : Int)), l.freed⟩

/-- Record a release. -/
def Ledger.free (l : Ledger) (id : Nat) : Ledger := { l with freed := insert id l.freed }

/-- The ledger says of every object how large it is and whether it has been released. -/
structure Ledger.Represents (l : Ledger) (h : Heap) : Prop where
  counter : l.counter = h.length
  sizes   : ∀ id o, h[id]? = some o → l.sizes id = some (o.size : Int)
  freed   : ∀ id o, h[id]? = some o → (id ∈ l.freed ↔ o.live = false)
  bounded : ∀ id ∈ l.freed, id < h.length

theorem represents_empty : Ledger.Represents ⟨0, fun _ => none, ∅⟩ [] where
  counter := rfl
  sizes := fun _ _ h => nomatch h
  freed := fun _ _ h => nomatch h
  bounded := fun _ h => absurd h (Finset.notMem_empty _)

/-- The objects after an allocation: the new one, and the old ones where they were. -/
theorem getElem?_alloc_cases {h : Heap} {size id : Nat} {o : Obj}
    (ho : (h.alloc size)[id]? = some o) :
    (id = h.length ∧ o = ⟨size, true⟩) ∨ h[id]? = some o := by
  unfold Heap.alloc at ho
  by_cases hlt : id < h.length
  · rw [List.getElem?_append_left hlt] at ho
    exact Or.inr ho
  · rw [List.getElem?_append_right (Nat.le_of_not_lt hlt)] at ho
    cases hk : id - h.length with
    | zero =>
        rw [hk] at ho
        exact Or.inl ⟨by omega, (Option.some.inj ho).symm⟩
    | succ k => rw [hk] at ho; exact nomatch ho

/-- **Allocation** takes the counter as the new id. -/
theorem represents_alloc {l : Ledger} {h : Heap} (hr : l.Represents h) (size : Nat) :
    (l.alloc size).Represents (h.alloc size) where
  counter := by
    show l.counter + 1 = (h.alloc size).length
    rw [hr.counter, Heap.alloc, List.length_append]
    rfl
  sizes := by
    intro id o ho
    show Function.update l.sizes l.counter (some (size : Int)) id = some (o.size : Int)
    rw [hr.counter]
    rcases getElem?_alloc_cases ho with ⟨rfl, rfl⟩ | hold
    · rw [Function.update_self]
    · have hlt := (List.getElem?_eq_some_iff.mp hold).1
      rw [Function.update_of_ne (Nat.ne_of_lt hlt)]
      exact hr.sizes id o hold
  freed := by
    intro id o ho
    rcases getElem?_alloc_cases ho with ⟨rfl, rfl⟩ | hold
    · refine ⟨fun hmem => absurd (hr.bounded _ hmem) (Nat.lt_irrefl _), fun hl => (nomatch hl)⟩
    · exact hr.freed id o hold
  bounded := by
    intro id hid
    have := hr.bounded id hid
    rw [Heap.alloc, List.length_append]
    omega

/-- **Release** moves the id into the released set. -/
theorem represents_free {l : Ledger} {h h' : Heap} (hr : l.Represents h) {p : Ptr}
    (hf : h.free p = some h') :
    (l.free p.1).Represents h' := by
  unfold Heap.free at hf
  cases hp : h[p.1]? with
  | none => rw [hp] at hf; exact nomatch hf
  | some o =>
      have hlt := (List.getElem?_eq_some_iff.mp hp).1
      simp only [hp] at hf
      cases hl : o.live with
      | false => rw [hl] at hf; exact nomatch hf
      | true =>
          rw [hl] at hf
          obtain rfl := Option.some.inj hf
          refine ⟨by rw [List.length_set]; exact hr.counter, ?_, ?_, ?_⟩
          · intro id o' ho'
            by_cases hid : p.1 = id
            · rw [← hid, List.getElem?_set_self hlt] at ho'
              obtain rfl := Option.some.inj ho'
              rw [← hid]
              exact hr.sizes p.1 o hp
            · rw [List.getElem?_set_ne hid] at ho'
              exact hr.sizes id o' ho'
          · intro id o' ho'
            by_cases hid : p.1 = id
            · rw [← hid, List.getElem?_set_self hlt] at ho'
              obtain rfl := Option.some.inj ho'
              rw [← hid]
              exact ⟨fun _ => rfl, fun _ => Finset.mem_insert_self _ _⟩
            · rw [List.getElem?_set_ne hid] at ho'
              show id ∈ insert p.1 l.freed ↔ o'.live = false
              rw [Finset.mem_insert, hr.freed id o' ho']
              exact ⟨fun h => h.resolve_left (fun heq => hid heq.symm), Or.inr⟩
          · intro id hid
            rw [List.length_set]
            rcases Finset.mem_insert.mp hid with rfl | hid
            · exact hlt
            · exact hr.bounded id hid

/-- A release succeeds iff the ledger does not list the id. -/
theorem free_isSome_iff {l : Ledger} {h : Heap} (hr : l.Represents h) {p : Ptr}
    (hp : p.1 < l.counter) : (h.free p).isSome = true ↔ p.1 ∉ l.freed := by
  rw [hr.counter] at hp
  have hget : h[p.1]? = some h[p.1] := List.getElem?_eq_getElem hp
  rw [hr.freed _ _ hget]
  unfold Heap.free
  rw [hget]
  cases hl : h[p.1].live with
  | false => simp [hl]
  | true => simp [hl]

/-- An access is valid iff the ledger says so. -/
theorem valid_iff {l : Ledger} {h : Heap} (hr : l.Represents h) {p : Ptr} {size : Int}
    (hsize : l.sizes p.1 = some size) (hp : p.1 < l.counter) (n : Nat) :
    h.valid p n = true ↔ p.1 ∉ l.freed ∧ 0 ≤ p.2 ∧ p.2 + n ≤ size := by
  rw [hr.counter] at hp
  have hget : h[p.1]? = some h[p.1] := List.getElem?_eq_getElem hp
  have hsz := hr.sizes _ _ hget
  rw [hsize] at hsz
  obtain rfl := Option.some.inj hsz
  rw [hr.freed _ _ hget]
  unfold Heap.valid
  rw [hget]
  cases hl : h[p.1].live with
  | false => simp [hl]
  | true => simp [hl]

end ObjectHeap
