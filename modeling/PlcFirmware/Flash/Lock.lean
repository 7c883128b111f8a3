import Mathlib.Data.Fintype.Basic
import PlcFirmware.Flash.WriteDate
import PlcFirmware.Infra.Machine

/-!
# The `LOCK` bit

`STMFLASH_EraseSector` and `STMFLASH_WriteDate` unlock the flash, erase or program, and lock it again.
The receiver tasks of the server and of the client call both of them, and the console, in the timer
interrupt, calls the first; nothing keeps one of them out while another is inside. A step of the system
is the entry of such a function or one HAL call of it, and steps come in any order.

* `issued_unlocked` — when no erase or program call meets a locked flash
* `issued_after_lock` — and what happens otherwise
-/

namespace PlcFirmware.Flash

open Infra

/-- The contexts which change the flash. -/
inductive Context
  | server
  | client
  | console
  deriving DecidableEq

instance : Fintype Context := ⟨{.server, .client, .console}, fun c => by cases c <;> decide⟩

/-- A call of one of the two functions. -/
inductive Request
  | eraseSector (writeAddr : UInt32)
  | writeDate (writeAddr : UInt32) (pBuffer : Nat → UInt8) (numToWrite : UInt16)

/-- The console knows `STMFLASH_EraseSector` only. -/
def Context.Makes : Context → Request → Prop
  | .console, .writeDate _ _ _ => False
  | _, _ => True

instance : (c : Context) → (r : Request) → Decidable (c.Makes r)
  | .console, .writeDate _ _ _ => .isFalse id
  | .console, .eraseSector _ => .isTrue trivial
  | .server, _ => .isTrue trivial
  | .client, _ => .isTrue trivial

/-- The HAL calls of a request; `hal k` is what the `k`-th erase or program call returns. -/
def Request.ops (hal : Nat → HalStatus) : Request → List FlashOp
  | .eraseSector writeAddr => (stmflashEraseSector writeAddr.toNat hal 0).ops
  | .writeDate writeAddr pBuffer numToWrite =>
    (stmflashWriteDate pBuffer hal writeAddr.toNat numToWrite.toNat 0).ops

/-- An erase or program call. -/
def FlashOp.changes : FlashOp → Bool
  | .erase _ _ => true
  | .program _ _ _ _ => true
  | .unlock => false
  | .lock => false

/-- `LOCK` after the call. -/
def FlashOp.lockAfter : FlashOp → Bool → Bool
  | .unlock, _ => false
  | .lock, _ => true
  | .erase _ _, bit => bit
  | .program _ _ _ _, bit => bit

/-! ## The system -/

/-- The bit, and the HAL calls which the function a context is in has still to make. -/
structure Shared where
  lock : Bool
  rest : Context → List FlashOp

/-- After reset the flash is locked. -/
def Shared.boot : Shared := ⟨true, fun _ => []⟩

inductive Input
  | enter (c : Context) (r : Request) (hal : Nat → HalStatus)
  | proceed (c : Context)

/-- A context has made the HAL call, and the bit was this when it was issued. -/
structure Issued where
  context : Context
  op : FlashOp
  lock : Bool
  deriving DecidableEq

/-- A step. A context enters a function when it is in none. -/
def Shared.step (s : Shared) : Input → Shared × List Issued
  | .enter c r hal =>
    if s.rest c = [] ∧ c.Makes r then
      ({ s with rest := Function.update s.rest c (r.ops hal) }, [])
    else (s, [])
  | .proceed c =>
    match s.rest c with
    | [] => (s, [])
    | op :: ops =>
      (⟨op.lockAfter s.lock, Function.update s.rest c ops⟩, [⟨c, op, s.lock⟩])

/-- Interleavings of the contexts. -/
def interleaving : Machine Shared Input Issued := ⟨Shared.step⟩

/-! ## The functions -/

/-- A function unlocks, erases or programs, and locks. -/
def Bracketed (ops : List FlashOp) : Prop :=
  ∃ body : List FlashOp, (∀ op ∈ body, op.changes = true) ∧ ops = .unlock :: body ++ [.lock]

variable {pBuffer : Nat → UInt8} {hal : Nat → HalStatus} {op : FlashOp}

theorem writeBytes_changes {number writeAddr p calls : Nat}
    (hop : op ∈ (writeBytes pBuffer hal number writeAddr p calls).ops) : op.changes = true := by
  fun_induction writeBytes pBuffer hal number writeAddr p calls with
  | case1 => cases hop
  | case2 number addr p calls first hk ih =>
    rcases List.mem_cons.mp hop with rfl | hop
    · rfl
    · exact ih hop
  | case3 number addr p calls first hk =>
    obtain rfl := List.mem_singleton.mp hop
    rfl

theorem writeWords_changes {number writeAddr p calls : Nat}
    (hop : op ∈ (writeWords pBuffer hal number writeAddr p calls).ops) : op.changes = true := by
  fun_induction writeWords pBuffer hal number writeAddr p calls with
  | case1 number addr p calls hpos first hk ih =>
    rcases List.mem_cons.mp hop with rfl | hop
    · rfl
    · exact ih hop
  | case2 number addr p calls hpos first hk =>
    rcases List.mem_cons.mp hop with rfl | hop
    · rfl
    · exact writeBytes_changes hop
  | case3 => exact writeBytes_changes hop
  | case4 => exact writeBytes_changes hop

theorem bracketed_ops (r : Request) (hal : Nat → HalStatus) : Bracketed (r.ops hal) := by
  cases r with
  | eraseSector writeAddr =>
    exact ⟨[.erase (stmflashGetFlashSector writeAddr.toNat) (hal 0)], by simp [FlashOp.changes], rfl⟩
  | writeDate writeAddr pBuffer numToWrite =>
    exact ⟨_, fun _ hop => writeWords_changes hop, rfl⟩

/-- What a context has still to do: nothing, a whole function, or the end of one. -/
inductive Pending : List FlashOp → Prop
  | none : Pending []
  | entered {ops : List FlashOp} (h : Bracketed ops) : Pending ops
  | inside {body : List FlashOp} (h : ∀ op ∈ body, op.changes = true) : Pending (body ++ [.lock])

/-- **One HAL call later.** The call which changes the flash is behind the unlock, before the lock. -/
theorem Pending.tail {op : FlashOp} {ops : List FlashOp} (h : Pending (op :: ops)) : Pending ops := by
  generalize heq : op :: ops = all at h
  cases h with
  | none => cases heq
  | entered h =>
    obtain ⟨body, hbody, rfl⟩ := h
    obtain ⟨-, rfl⟩ := List.cons.inj heq
    exact .inside hbody
  | @inside body h =>
    cases body with
    | nil =>
      obtain ⟨-, rfl⟩ := List.cons.inj heq
      exact .none
    | cons first body =>
      obtain ⟨-, rfl⟩ := List.cons.inj heq
      exact .inside fun op hop => h op (List.mem_cons_of_mem _ hop)

theorem Pending.tail_of_lock {ops : List FlashOp} (h : Pending (.lock :: ops)) : ops = [] := by
  generalize heq : FlashOp.lock :: ops = all at h
  cases h with
  | none => cases heq
  | entered h =>
    obtain ⟨body, hbody, rfl⟩ := h
    cases heq
  | @inside body h =>
    cases body with
    | nil => exact (List.cons.inj heq).2
    | cons first body =>
      obtain ⟨rfl, -⟩ := List.cons.inj heq
      cases h _ List.mem_cons_self

/-! ## Locking -/

/-- The next HAL call of the context erases or programs. -/
def Shared.Inside (s : Shared) (c : Context) : Prop := ∃ op ∈ (s.rest c).head?, op.changes = true

/--
The condition on a step: it does not lock the flash while another context is between its unlock and its
last erase or program call.
-/
def Input.Apart (s : Shared) : Input → Prop
  | .enter _ _ _ => True
  | .proceed c => (s.rest c).head? = some .lock → ∀ c' ≠ c, ¬s.Inside c'

instance (s : Shared) (c : Context) : Decidable (s.Inside c) :=
  inferInstanceAs (Decidable (∃ op ∈ (s.rest c).head?, op.changes = true))

instance (s : Shared) : (i : Input) → Decidable (i.Apart s)
  | .enter _ _ _ => .isTrue trivial
  | .proceed c =>
    inferInstanceAs (Decidable ((s.rest c).head? = some .lock → ∀ c' ≠ c, ¬s.Inside c'))

/-- While a context is inside, the flash is unlocked. -/
structure Guarded (s : Shared) : Prop where
  pending : ∀ c, Pending (s.rest c)
  unlocked : ∀ c, s.Inside c → s.lock = false

theorem guarded_boot : Guarded .boot where
  pending := fun _ => .none
  unlocked := by simp [Shared.Inside, Shared.boot]

variable {s : Shared}

/-- What a step does: nothing, the entry of a function, or a HAL call. -/
theorem step_cases (s : Shared) (i : Input) :
    interleaving.step s i = (s, []) ∨
      (∃ c r hal, i = .enter c r hal ∧ interleaving.step s i =
        ({ s with rest := Function.update s.rest c (r.ops hal) }, [])) ∨
      ∃ c op ops, i = .proceed c ∧ s.rest c = op :: ops ∧ interleaving.step s i =
        (⟨op.lockAfter s.lock, Function.update s.rest c ops⟩, [⟨c, op, s.lock⟩]) := by
  cases i with
  | enter c r hal =>
    by_cases h : s.rest c = [] ∧ c.Makes r
    · exact .inr (.inl ⟨c, r, hal, rfl, if_pos h⟩)
    · exact .inl (if_neg h)
  | proceed c =>
    cases hrest : s.rest c with
    | nil => exact .inl (by simp only [interleaving, Shared.step, hrest])
    | cons op ops =>
      exact .inr (.inr ⟨c, op, ops, rfl, hrest, by simp only [interleaving, Shared.step, hrest]⟩)

/-- Where a context is depends on what it has still to do. -/
theorem inside_congr {t : Shared} {c : Context} (h : t.rest c = s.rest c) :
    t.Inside c ↔ s.Inside c := by rw [Shared.Inside, Shared.Inside, h]

/-- A context which has just entered a function is in front of the unlock. -/
theorem not_inside_of_bracketed {c : Context} (h : Bracketed (s.rest c)) : ¬s.Inside c := by
  obtain ⟨body, -, hops⟩ := h
  simp [Shared.Inside, hops, FlashOp.changes]

/-- The entry of a function. -/
theorem Guarded.enter (h : Guarded s) (c : Context) {ops : List FlashOp} (hops : Bracketed ops) :
    Guarded { s with rest := Function.update s.rest c ops } where
  pending := (Function.forall_update_iff s.rest fun _ ops => Pending ops).mpr
    ⟨.entered hops, fun c' _ => h.pending c'⟩
  unlocked := by
    intro c' hin
    by_cases hc : c' = c
    · subst hc
      exact absurd hin (not_inside_of_bracketed (by simpa using hops))
    · exact h.unlocked c' ((inside_congr (Function.update_of_ne hc ..)).mp hin)

/-- A HAL call. -/
theorem Guarded.proceed (h : Guarded s) {c : Context} {op : FlashOp} {ops : List FlashOp}
    (hrest : s.rest c = op :: ops) (hapart : op = .lock → ∀ c' ≠ c, ¬s.Inside c') :
    Guarded ⟨op.lockAfter s.lock, Function.update s.rest c ops⟩ := by
  have hpend : Pending (op :: ops) := hrest ▸ h.pending c
  have hin : op.changes = true → s.lock = false := fun hop =>
    h.unlocked c ⟨op, by rw [hrest]; rfl, hop⟩
  refine ⟨(Function.forall_update_iff s.rest fun _ ops => Pending ops).mpr
    ⟨hpend.tail, fun c' _ => h.pending c'⟩, fun c' hc' => ?_⟩
  cases op with
  | unlock => rfl
  | erase sector status => exact hin rfl
  | program type addr data status => exact hin rfl
  | lock =>
    -- nobody is inside: not this context, for the lock is its last call, and no other one
    by_cases hc : c' = c
    · subst hc
      obtain ⟨op, hop, -⟩ := hc'
      simp [hpend.tail_of_lock] at hop
    · exact absurd ((inside_congr (Function.update_of_ne hc ..)).mp hc') (hapart rfl c' hc)

/-- **A step keeps the flash unlocked for those inside.** -/
theorem Guarded.step (h : Guarded s) {i : Input} (hi : i.Apart s) :
    Guarded (interleaving.step s i).1 := by
  obtain heq | ⟨c, r, hal, -, heq⟩ | ⟨c, op, ops, rfl, hrest, heq⟩ := step_cases s i
  · rwa [heq]
  · rw [heq]
    exact h.enter c (bracketed_ops r hal)
  · rw [heq]
    exact h.proceed hrest fun hop => hi (by rw [hrest, hop]; rfl)

/-- What a step issues to a guarded flash. -/
theorem Guarded.issued (h : Guarded s) (i : Input) {e : Issued}
    (he : e ∈ (interleaving.step s i).2) (hop : e.op.changes = true) : e.lock = false := by
  obtain heq | ⟨c, r, hal, -, heq⟩ | ⟨c, op, ops, -, hrest, heq⟩ := step_cases s i
  · rw [heq] at he; cases he
  · rw [heq] at he; cases he
  · rw [heq] at he
    obtain rfl := List.mem_singleton.mp he
    exact h.unlocked c ⟨op, by rw [hrest]; rfl, hop⟩

/--
**No erase or program call is issued while `LOCK` is set**, in every interleaving in which no context
locks the flash while another one is inside.
-/
theorem issued_unlocked (is : List Input)
    (happart : ∀ p ∈ interleaving.transitions .boot is, p.2.Apart p.1) :
    ∀ e ∈ interleaving.trace .boot is, e.op.changes = true → e.lock = false := by
  intro e he hop
  obtain ⟨p, hp, he⟩ := interleaving.mem_trace_iff.mp he
  have hguard : Guarded p.1 :=
    (interleaving.run_invariant (P := Guarded) (G := fun s i => i.Apart s)
      (fun s i h hi => h.step hi) guarded_boot happart).1 p hp
  exact hguard.issued p.2 he hop

/-- **The condition is needed**: if the context inside goes on next, its call meets a locked flash. -/
theorem issued_after_lock {c c' : Context} {op : FlashOp} {ops ops' : List FlashOp} (hne : c' ≠ c)
    (hc : s.rest c = .lock :: ops) (hc' : s.rest c' = op :: ops') :
    ⟨c', op, true⟩ ∈ interleaving.trace s [.proceed c, .proceed c'] := by
  simp [interleaving, Shared.step, hc, hc', Function.update_of_ne hne, FlashOp.lockAfter]

/-- The server writes a byte, and then the client erases. -/
def oneAfterTheOther : List Input :=
  [.enter .server (.writeDate 0x08040000 (fun _ => 7) 1) (fun _ => .ok), .proceed .server,
    .proceed .server, .proceed .server, .enter .client (.eraseSector 0x08040000) (fun _ => .ok),
    .proceed .client, .proceed .client, .proceed .client]

theorem issued_unlocked_oneAfterTheOther :
    (∀ p ∈ interleaving.transitions .boot oneAfterTheOther, p.2.Apart p.1) ∧
      ∀ e ∈ interleaving.trace .boot oneAfterTheOther, e.op.changes = true → e.lock = false := by
  have happart : ∀ p ∈ interleaving.transitions .boot oneAfterTheOther, p.2.Apart p.1 := by decide
  exact ⟨happart, issued_unlocked oneAfterTheOther happart⟩

/-- The console erases a sector while the server is about to write a byte. -/
def eraseBetween : List Input :=
  [.enter .server (.writeDate 0x08040000 (fun _ => 7) 1) (fun _ => .ok), .proceed .server,
    .enter .console (.eraseSector 0x080C0000) (fun _ => .ok), .proceed .console, .proceed .console,
    .proceed .console, .proceed .server]

theorem eraseBetween_meets_lock :
    ∃ e ∈ interleaving.trace .boot eraseBetween, e.op.changes = true ∧ e.lock = true :=
  ⟨⟨.server, .program .byte 0x08040000 7 .ok, true⟩, by decide, rfl, rfl⟩

end PlcFirmware.Flash
