import Mathlib.Algebra.Divisibility.Basic
import Mathlib.Algebra.Ring.Int.Defs
import SentinelKv.SkvTransferProofs

/-!
# Pointers that pass through integers

The analyzer follows a kmalloc pointer through `ptrtoint`, additions and subtractions of
constants, and `inttoptr`.  It keeps an offset in unbounded integers and never looks at the
type of the integer.  What the code does is stated on a small machine (`execInstr`) with
64-bit addresses and integers modulo the power of two their type says.

* **`chain_tracked`** — a chain whose result is tracked moves the offset by the sum of its
  constants;
* **`chain_exec`** — executed, it moves the address by the same sum, but modulo `2 ^ w` on the way;
* **`round_trip_iff`** — so the tracked offset is the real one, wherever the allocation lies, if
  and only if the integer has 64 bits or more.
-/

namespace SkvRoundTrip

open BreakLoop SkvIr SkvGate SkvAnalyze SkvTransfer

-- ── The machine ──────────────────────────────────────────────────────────────────

/-- A 64-bit address, or an integer of `width` bits. -/
inductive Val where
  | ptr (address : Int)
  | int (width : Nat) (x : Int)

abbrev Regs := Name → Option Val

def operandVal (r : Regs) : Operand → Option Val
  | .localOperand n _ => r n
  | .constantOperand (.int bits value) => some (.int bits.toNat (value.toNat % 2 ^ bits.toNat))
  | _ => none

/-- Wrapping arithmetic on integers of one width. -/
def arithVal (f : Int → Int → Int) : Val → Val → Option Val
  | .int w x, .int w' y => if w = w' then some (.int w (f x y % 2 ^ w)) else none
  | _, _ => none

/-- The four instructions of a round trip.  A cast to more bits extends by zeros, one to fewer
    bits truncates; both are the remainder. -/
def execInstr (r : Regs) : Instruction → Option Regs
  | .ptrToInt op (.integerType bits) dest =>
      match operandVal r op with
      | some (.ptr a) =>
          some (Function.update r dest (some (.int bits.toNat (a % 2 ^ bits.toNat))))
      | _ => none
  | .intToPtr op _ dest =>
      match operandVal r op with
      | some (.int _ x) => some (Function.update r dest (some (.ptr (x % 2 ^ 64))))
      | _ => none
  | .add op0 op1 dest =>
      (operandVal r op0).bind fun x => (operandVal r op1).bind fun y =>
        (arithVal (· + ·) x y).map fun z => Function.update r dest (some z)
  | .sub op0 op1 dest =>
      (operandVal r op0).bind fun x => (operandVal r op1).bind fun y =>
        (arithVal (· - ·) x y).map fun z => Function.update r dest (some z)
  | _ => none

def execAll (is : List Instruction) (r : Regs) : Option Regs := is.foldlM execInstr r

-- ── Chains ───────────────────────────────────────────────────────────────────────

/-- An addition or subtraction with a constant on either side. -/
inductive Step where
  | addRight (c : UInt64)
  | addLeft (c : UInt64)
  | subRight (c : UInt64)
  | subLeft (c : UInt64)

def Step.instr (w : UInt32) (src dest : Name) : Step → Instruction
  | .addRight c => .add (.localOperand src (.integerType w)) (.lit w c) dest
  | .addLeft c => .add (.lit w c) (.localOperand src (.integerType w)) dest
  | .subRight c => .sub (.localOperand src (.integerType w)) (.lit w c) dest
  | .subLeft c => .sub (.lit w c) (.localOperand src (.integerType w)) dest

/-- The steps, each reading the result of the one before. -/
def arith (w : UInt32) : Name → List (Step × Name) → List Instruction
  | _, [] => []
  | src, x :: xs => x.1.instr w src x.2 :: arith w x.2 xs

/-- The result of the last step. -/
def lastName : Name → List (Step × Name) → Name
  | src, [] => src
  | _, x :: xs => lastName x.2 xs

/-- `ptrtoint` of `p` into `n`, the steps, and `inttoptr` into `q`. -/
def chain (w : UInt32) (p n : Name) (xs : List (Step × Name)) (q : Name) : List Instruction :=
  .ptrToInt (.localOperand p .pointerType) (.integerType w) n
    :: (arith w n xs ++ [.intToPtr (.localOperand (lastName n xs) (.integerType w)) .pointerType q])

/-- What a step does to a mathematical integer. -/
def Step.act (z : Int) : Step → Int
  | .addRight c => z + c.toNat
  | .addLeft c => z + c.toNat
  | .subRight c => z - c.toNat
  | .subLeft c => c.toNat - z

-- ── The machine on a chain ───────────────────────────────────────────────────────

theorem execInstr_step (w : UInt32) (src dest : Name) (x : Step) {r : Regs} {z : Int}
    (h : r src = some (.int w.toNat (z % 2 ^ w.toNat))) :
    execInstr r (x.instr w src dest)
      = some (Function.update r dest (some (.int w.toNat (x.act z % 2 ^ w.toNat)))) := by
  have hlit : ∀ c : UInt64, operandVal r (.lit w c) = some (.int w.toNat (c.toNat % 2 ^ w.toNat)) :=
    fun _ => rfl
  have hsrc : operandVal r (.localOperand src (.integerType w))
      = some (.int w.toNat (z % 2 ^ w.toNat)) := h
  cases x with
  | addRight c =>
      simp only [Step.instr, execInstr, hlit, hsrc, Option.bind_some, arithVal, if_true,
        Option.map_some, Step.act, ← Int.add_emod]
  | addLeft c =>
      simp only [Step.instr, execInstr, hlit, hsrc, Option.bind_some, arithVal, if_true,
        Option.map_some, Step.act, ← Int.add_emod, Int.add_comm]
  | subRight c =>
      simp only [Step.instr, execInstr, hlit, hsrc, Option.bind_some, arithVal, if_true,
        Option.map_some, Step.act, ← Int.sub_emod]
  | subLeft c =>
      simp only [Step.instr, execInstr, hlit, hsrc, Option.bind_some, arithVal, if_true,
        Option.map_some, Step.act, ← Int.sub_emod]

theorem execAll_arith (w : UInt32) (xs : List (Step × Name)) : ∀ (src : Name) (r : Regs) (z : Int),
    r src = some (.int w.toNat (z % 2 ^ w.toNat)) →
    ∃ r', execAll (arith w src xs) r = some r' ∧ r' (lastName src xs)
      = some (.int w.toNat (xs.foldl (fun z x => x.1.act z) z % 2 ^ w.toNat)) := by
  induction xs with
  | nil => intro src r z h; exact ⟨r, rfl, h⟩
  | cons x xs ih =>
      intro src r z h
      obtain ⟨r', hrun, hlast⟩ := ih x.2 _ (x.1.act z) (Function.update_self x.2 _ r)
      refine ⟨r', ?_, hlast⟩
      show (execInstr r (x.1.instr w src x.2)).bind (execAll (arith w x.2 xs)) = some r'
      rw [execInstr_step w src x.2 x.1 h, Option.bind_some, hrun]

/-- **The machine**: the address moves by the constants, modulo `2 ^ w` first and `2 ^ 64` then. -/
theorem chain_exec (w : UInt32) (p n : Name) (xs : List (Step × Name)) (q : Name) {r : Regs} {a : Int}
    (h : r p = some (.ptr a)) :
    ∃ r', execAll (chain w p n xs q) r = some r' ∧ r' q
      = some (.ptr (xs.foldl (fun z x => x.1.act z) a % 2 ^ w.toNat % 2 ^ 64)) := by
  obtain ⟨r₁, hrun, hlast⟩ := execAll_arith w xs n
    (Function.update r n (some (.int w.toNat (a % 2 ^ w.toNat)))) a (Function.update_self _ _ _)
  refine ⟨_, ?_, Function.update_self q _ r₁⟩
  have hcast : execInstr r (.ptrToInt (.localOperand p .pointerType) (.integerType w) n)
      = some (Function.update r n (some (.int w.toNat (a % 2 ^ w.toNat)))) := by
    simp only [execInstr, operandVal, h]
  show (execInstr r _).bind (execAll (arith w n xs ++ _)) = _
  rw [hcast, Option.bind_some, execAll, List.foldlM_append]
  show (execAll (arith w n xs) _).bind _ = _
  rw [hrun, Option.bind_some]
  simp only [List.foldlM_cons, List.foldlM_nil, execInstr, operandVal, hlast]
  rfl

-- ── The analyzer on a chain ──────────────────────────────────────────────────────

/-- What the analyzer makes of a step: only a constant on the right of a subtraction, or on either
    side of an addition, is followed. -/
def Step.track (v : IntVal) (x : Step) : IntVal :=
  match v, x with
  | .ptrOffset id offset, .addRight c => .ptrOffset id (.add offset (.fromU64 c))
  | .ptrOffset id offset, .addLeft c => .ptrOffset id (.add offset (.fromU64 c))
  | .ptrOffset id offset, .subRight c => .ptrOffset id (.sub offset (.fromU64 c))
  | _, _ => .unknown

theorem transfer_step (m : Module) (dma : DmaPolicy) (w : UInt32) (src dest : Name) (x : Step)
    {t : Maps} {v : IntVal} (h : t.intEnv src = some v) :
    (transfer m dma (x.instr w src dest) t).intEnv dest = some (x.track v) := by
  have hsrc : operandInt t (.localOperand src (.integerType w)) = some v := h
  have hlit : ∀ c : UInt64, operandInt t (.lit w c) = none := fun _ => rfl
  have hconst : ∀ c : UInt64, operandConstU64 (.lit w c) = some c := fun _ => rfl
  cases x <;> cases v <;>
    simp only [Step.instr, transfer, addOut, subOut, intTracked, hsrc, hlit, hconst, Step.track,
      bindArith, Option.map_some, Option.isSome_some, Bool.true_or, Bool.or_true, if_true,
      Maps.bindInt, Function.update_self]

theorem foldl_transfer_arith (m : Module) (dma : DmaPolicy) (w : UInt32) (xs : List (Step × Name)) :
    ∀ (src : Name) (t : Maps) (v : IntVal), t.intEnv src = some v →
      ((arith w src xs).foldl (fun t i => transfer m dma i t) t).intEnv (lastName src xs)
        = some (xs.foldl (fun v x => x.1.track v) v) := by
  induction xs with
  | nil => intro src t v h; exact h
  | cons x xs ih =>
      intro src t v h
      exact ih x.2 _ _ (transfer_step m dma w src x.2 x.1 h)

/-- A tracked result: every step moved the offset as it moves integers. -/
theorem track_act (xs : List (Step × Name)) : ∀ (v : IntVal) {id : Nat} {off : Z3Int},
    xs.foldl (fun v x => x.1.track v) v = .ptrOffset id off →
    ∃ off₀, v = .ptrOffset id off₀
      ∧ ∀ z : Int, xs.foldl (fun z x => x.1.act z) (z + off₀.eval) = z + off.eval := by
  induction xs with
  | nil =>
      intro v id off h
      exact ⟨off, h, fun _ => rfl⟩
  | cons x xs ih =>
      intro v id off h
      obtain ⟨off₁, htrack, hact⟩ := ih (x.1.track v) h
      cases v with
      | unknown => exact nomatch htrack
      | ptrOffset id₀ off₀ =>
          obtain ⟨step, dest⟩ := x
          cases step with
          | subLeft c => exact nomatch htrack
          | addRight c =>
              obtain ⟨rfl, rfl⟩ := IntVal.ptrOffset.inj htrack
              refine ⟨off₀, rfl, fun z => ?_⟩
              rw [← hact z, Z3Int.eval_add, Z3Int.eval_fromU64, ← Int.add_assoc]
              rfl
          | addLeft c =>
              obtain ⟨rfl, rfl⟩ := IntVal.ptrOffset.inj htrack
              refine ⟨off₀, rfl, fun z => ?_⟩
              rw [← hact z, Z3Int.eval_add, Z3Int.eval_fromU64, ← Int.add_assoc]
              rfl
          | subRight c =>
              obtain ⟨rfl, rfl⟩ := IntVal.ptrOffset.inj htrack
              refine ⟨off₀, rfl, fun z => ?_⟩
              rw [← hact z, Z3Int.eval_sub, Z3Int.eval_fromU64, ← Int.add_sub_assoc]
              rfl

/-- The four kinds of instruction in a chain. -/
def InChain : Instruction → Prop
  | .ptrToInt _ _ _ | .intToPtr _ _ _ | .add _ _ _ | .sub _ _ _ => True
  | _ => False

theorem inChain_chain (w : UInt32) (p n : Name) (xs : List (Step × Name)) (q : Name) :
    ∀ i ∈ chain w p n xs q, InChain i := by
  have harith : ∀ (xs : List (Step × Name)) (src : Name), ∀ i ∈ arith w src xs, InChain i := by
    intro xs
    induction xs with
    | nil => intro src i hi; exact nomatch hi
    | cons x xs ih =>
        intro src i hi
        rcases List.mem_cons.mp hi with rfl | hi
        · cases x.1 <;> trivial
        · exact ih x.2 i hi
  intro i hi
  rcases List.mem_cons.mp hi with rfl | hi
  · trivial
  · rcases List.mem_append.mp hi with hi | hi
    · exact harith xs n i hi
    · obtain rfl := List.mem_singleton.mp hi
      trivial

/-- None of them breaks off the scan. -/
theorem inChain_next (e : Env) {site : Site} (h : InChain site.instr) (s : St) :
    ∃ s', stepInstr e site s = .next s' := by
  unfold stepInstr
  cases hi : site.instr with
  | ptrToInt op ty dest => cases op <;> exact ⟨_, rfl⟩
  | intToPtr op ty dest => cases op <;> exact ⟨_, rfl⟩
  | add op0 op1 dest =>
      simp only [stepAdd]
      split
      · exact ⟨_, rfl⟩
      · split <;> exact ⟨_, rfl⟩
  | sub op0 op1 dest =>
      simp only [stepSub]
      split <;> exact ⟨_, rfl⟩
  | _ =>
      rw [hi] at h
      exact h.elim

theorem forLoop_inChain (e : Env) : ∀ (sites : List Site) (s : St), ¬ Failed s →
    (∀ site ∈ sites, InChain site.instr) →
    (forLoop (stepInstr e) sites s).maps
      = (sites.map Site.instr).foldl (fun t i => transfer e.module e.dmaPolicy i t) s.maps := by
  intro sites
  induction sites with
  | nil => intro s _ _; rfl
  | cons site sites ih =>
      intro s hs h
      obtain ⟨s', hnext⟩ := inChain_next e (h site List.mem_cons_self) s
      have hok := stepInstr_ok e site hs
      have hmaps : s'.maps = transfer e.module e.dmaPolicy site.instr s.maps := by
        rw [← hok.maps, hnext]
        rfl
      rw [forLoop_cons_next hnext, ih s' (hok.next_down s' hnext hs)
        (fun x hx => h x (List.mem_cons_of_mem site hx)), hmaps]
      rfl

/-- **The analyzer**: a tracked result has moved as the constants say. -/
theorem chain_tracked {e : Env} {s : St} (hs : ¬ Failed s) {sites : List Site} {w : UInt32} {p n : Name}
    {xs : List (Step × Name)} {q : Name} (hsites : sites.map Site.instr = chain w p n xs q)
    {id : Nat} {off₀ : Z3Int} (hp : s.maps.ptrEnv p = some (.kmalloc id off₀)) {id' : Nat} {off : Z3Int}
    (hq : (forLoop (stepInstr e) sites s).maps.ptrEnv q = some (.kmalloc id' off)) :
    id' = id
      ∧ ∀ z : Int, xs.foldl (fun z x => x.1.act z) (z + off₀.eval) = z + off.eval := by
  have hin : ∀ site ∈ sites, InChain site.instr := by
    intro site hsite
    refine inChain_chain w p n xs q _ ?_
    rw [← hsites]
    exact List.mem_map_of_mem hsite
  rw [forLoop_inChain e sites s hs hin, hsites, chain, List.foldl_cons, List.foldl_append] at hq
  have hcast : (transfer e.module e.dmaPolicy
      (.ptrToInt (.localOperand p .pointerType) (.integerType w) n) s.maps).intEnv n
        = some (.ptrOffset id off₀) := by
    simp only [transfer, operandLocalName_local, Option.map_some, Option.getD_some, ptrToIntVal, hp,
      Maps.bindInt, Function.update_self]
  have harith := foldl_transfer_arith e.module e.dmaPolicy w xs n _ _ hcast
  generalize (arith w n xs).foldl (fun t i => transfer e.module e.dmaPolicy i t) _ = t at hq harith
  have hlast : some (intToPtrVal t (lastName n xs)) = some (.kmalloc id' off) := by
    rw [← hq]
    exact (Function.update_self q _ t.ptrEnv).symm
  rw [intToPtrVal, harith, Option.some.injEq] at hlast
  cases hv : xs.foldl (fun v x => x.1.track v) (.ptrOffset id off₀) with
  | unknown =>
      rw [hv] at hlast
      cases hlast
  | ptrOffset id₁ off₁ =>
      rw [hv] at hlast
      obtain ⟨rfl, rfl⟩ := PtrVal.kmalloc.inj hlast
      obtain ⟨off₂, heq, hact⟩ := track_act xs _ hv
      obtain ⟨rfl, rfl⟩ := IntVal.ptrOffset.inj heq
      exact ⟨rfl, hact⟩

-- ── Round trips ──────────────────────────────────────────────────────────────────

/-- Executed from a pointer at `base + start`, the chain ends at `base + stop`, wherever `base`
    is. -/
def RealAddress (is : List Instruction) (p q : Name) (start stop : Int) : Prop :=
  ∀ (base : Int) (r : Regs), r p = some (.ptr ((base + start) % 2 ^ 64)) →
    ∃ r', execAll is r = some r' ∧ r' q = some (.ptr ((base + stop) % 2 ^ 64))

/-- **Round trips.**  The tracked offset of the result is the real one if and only if the integer
    is as wide as an address. -/
theorem round_trip_iff {e : Env} {s : St} (hs : ¬ Failed s) {sites : List Site} {w : UInt32}
    {p n : Name} {xs : List (Step × Name)} {q : Name}
    (hsites : sites.map Site.instr = chain w p n xs q) {id : Nat} {off₀ off : Z3Int}
    (hp : s.maps.ptrEnv p = some (.kmalloc id off₀))
    (hq : (forLoop (stepInstr e) sites s).maps.ptrEnv q = some (.kmalloc id off)) :
    RealAddress (chain w p n xs q) p q off₀.eval off.eval ↔ 64 ≤ w.toNat := by
  obtain ⟨-, hact⟩ := chain_tracked hs hsites hp hq
  -- the executed address, for a base taken modulo `2 ^ 64` as the pointer is
  have hexec : ∀ base : Int, ∃ k : Int, ∀ r : Regs, r p = some (.ptr ((base + off₀.eval) % 2 ^ 64)) →
      ∃ r', execAll (chain w p n xs q) r = some r'
        ∧ r' q = some (.ptr ((base + off.eval - 2 ^ 64 * k) % 2 ^ w.toNat % 2 ^ 64)) := by
    intro base
    refine ⟨(base + off₀.eval) / 2 ^ 64, fun r hr => ?_⟩
    obtain ⟨r', hrun, hend⟩ := chain_exec w p n xs q hr
    refine ⟨r', hrun, ?_⟩
    have hmod : (base + off₀.eval) % 2 ^ 64
        = base - 2 ^ 64 * ((base + off₀.eval) / 2 ^ 64) + off₀.eval := by
      have := Int.emod_add_mul_ediv (base + off₀.eval) (2 ^ 64)
      omega
    rw [hend, hmod, hact, show base - 2 ^ 64 * ((base + off₀.eval) / 2 ^ 64) + off.eval
      = base + off.eval - 2 ^ 64 * ((base + off₀.eval) / 2 ^ 64) by omega]
  constructor
  · intro hreal
    by_contra hw
    -- a base that puts the tracked address at `2 ^ w`, out of reach of `w` bits
    obtain ⟨k, hexec⟩ := hexec (2 ^ w.toNat - off.eval)
    let r : Regs := fun _ => some (.ptr ((2 ^ w.toNat - off.eval + off₀.eval) % 2 ^ 64))
    obtain ⟨r', hrun, hend⟩ := hreal (2 ^ w.toNat - off.eval) r rfl
    obtain ⟨r'', hrun', hend'⟩ := hexec r rfl
    obtain rfl := Option.some.inj (hrun.symm.trans hrun')
    have haddr := Val.ptr.inj (Option.some.inj (hend.symm.trans hend'))
    have hpow : (2 : Int) ^ w.toNat < 2 ^ 64 := by
      exact_mod_cast Nat.pow_lt_pow_right (by decide : 1 < 2) (by omega : w.toNat < 64)
    have hpos : (0 : Int) < 2 ^ w.toNat := Int.pow_pos (by decide)
    rw [Int.sub_add_cancel, Int.emod_eq_of_lt (Int.le_of_lt hpos) hpow] at haddr
    have hlt := Int.emod_lt_of_pos (2 ^ w.toNat - 2 ^ 64 * k) hpos
    have hnonneg := Int.emod_nonneg (2 ^ w.toNat - 2 ^ 64 * k) (Int.ne_of_gt hpos)
    rw [Int.emod_eq_of_lt hnonneg (by omega)] at haddr
    omega
  · intro hw base r hr
    obtain ⟨k, hexec⟩ := hexec base
    obtain ⟨r', hrun, hend⟩ := hexec r hr
    refine ⟨r', hrun, ?_⟩
    have hdvd : (2 : Int) ^ 64 ∣ 2 ^ w.toNat := pow_dvd_pow 2 hw
    rw [hend, Int.emod_emod_of_dvd _ hdvd, Int.sub_mul_emod_self_left]

/-- One allocation, its pointer taken through an integer of `w` bits, 4 bytes further, and
    written through. -/
def castDriver (w : UInt32) : Module := Module.ofFunctions [Function.ofBlocks "cast_module_init" [(
  .call (.direct "kmalloc" [.lit 64 8, .lit 32 0] (some (.name "p")))
    :: (chain w (.name "p") (.name "n") [(.addRight 4, .name "m")] (.name "q")
      ++ [.store (.ptr "q") (.lit 32 20)]), .ret none)]]

def castEnv (w : UInt32) : Env :=
  mkEnv (castDriver w) (sortedHost evalSolver) .conservative .verify

/-- The state after the allocation. -/
def castStart (w : UInt32) : St :=
  forLoop (stepInstr (castEnv w)) ((sites (castDriver w)).take 1) (St.init (.fresh .off ∅ ∅))

def castSites (w : UInt32) : List Site := ((sites (castDriver w)).drop 1).take 3

theorem castDriver_wide : RealAddress
    (chain 64 (.name "p") (.name "n") [(.addRight 4, .name "m")] (.name "q")) (.name "p") (.name "q")
    0 4 :=
  (round_trip_iff (e := castEnv 64) (s := castStart 64) (by decide +kernel)
    (show (castSites 64).map Site.instr = _ from rfl)
    (show (castStart 64).maps.ptrEnv (.name "p") = some (.kmalloc 0 (.fromU64 0)) by decide +kernel)
    (show (forLoop (stepInstr (castEnv 64)) (castSites 64) (castStart 64)).maps.ptrEnv (.name "q")
      = some (.kmalloc 0 (.add (.fromU64 0) (.fromU64 4))) by decide +kernel)).mpr (by decide)

/-- With 32 bits the driver passes too, the store's pointer is tracked at offset 4, and from a
    buffer at `2 ^ 32` it goes to address 4. -/
theorem castDriver_narrow :
    (analyze (castDriver 32) (sortedHost evalSolver) (.fresh .off ∅ ∅) .conservative
        .verify).1.result = .pass
      ∧ (castStart 32).maps.ptrEnv (.name "p") = some (.kmalloc 0 (.fromU64 0))
      ∧ (forLoop (stepInstr (castEnv 32)) (castSites 32) (castStart 32)).maps.ptrEnv (.name "q")
          = some (.kmalloc 0 (.add (.fromU64 0) (.fromU64 4)))
      ∧ ¬ RealAddress (chain 32 (.name "p") (.name "n") [(.addRight 4, .name "m")] (.name "q"))
          (.name "p") (.name "q") 0 4 := by
  refine ⟨by decide +kernel, by decide +kernel, by decide +kernel, fun hreal => ?_⟩
  let r : Regs := fun _ => some (.ptr ((2 ^ 32 + 0) % 2 ^ 64))
  obtain ⟨r', hrun, hend⟩ := hreal (2 ^ 32) r rfl
  obtain ⟨r'', hrun', hend'⟩ := chain_exec 32 (.name "p") (.name "n") [(.addRight 4, .name "m")]
    (.name "q") (r := r) rfl
  obtain rfl := Option.some.inj (hrun.symm.trans hrun')
  exact absurd (Val.ptr.inj (Option.some.inj (hend.symm.trans hend'))) (by decide)

end SkvRoundTrip
