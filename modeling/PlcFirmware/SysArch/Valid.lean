import PlcFirmware.SysArch.Mbox

/-!
# When `sys_mbox_valid` is right

A mailbox is live from a successful `sys_mbox_new` to the next `sys_mbox_free` or
`sys_mbox_set_invalid`. `Registry` follows that along a history, together with the control block each
mailbox was last given and the queue which is in it. Neither of the two functions clears `pQ`, so a
mailbox goes on pointing to its block when that is deleted, given to another mailbox, or kept.

* `valid_iff_live_iff` — `sys_mbox_valid` tells the live mailboxes apart exactly where the block of a
  live one is a queue with room, and the block of another one is not
-/

namespace PlcFirmware.Ucos

open Infra

/-! ## What the kernel functions do to the control blocks -/

variable {k : Kernel} {pevent e : Nat}

/-- The types of the control blocks, and which of them are free, are the same. -/
def SameBlocks (k k' : Kernel) : Prop :=
  k'.type = k.type ∧ k'.osEventFreeList = k.osEventFreeList

theorem sameBlocks_osEventTaskRdy (k : Kernel) (pevent : Nat) (pmsg : Ptr) (pendStat : PendStat) :
    SameBlocks k (k.osEventTaskRdy pevent pmsg pendStat) := by
  unfold Kernel.osEventTaskRdy
  cases hpt (k.tbl pevent) with
  | none => exact ⟨rfl, rfl⟩
  | some prio => exact ⟨by simp, by simp⟩

theorem sameBlocks_osEventTaskRdyAll (pevent : Nat) (pmsg : Ptr) (pendStat : PendStat)
    (rounds : Nat) (k : Kernel) :
    SameBlocks k (Kernel.osEventTaskRdyAll pevent pmsg pendStat rounds k) := by
  induction rounds generalizing k with
  | zero => exact ⟨rfl, rfl⟩
  | succ rounds ih =>
    unfold Kernel.osEventTaskRdyAll
    cases hpt (k.tbl pevent) with
    | none => exact ⟨rfl, rfl⟩
    | some prio =>
      have h1 := sameBlocks_osEventTaskRdy k pevent pmsg pendStat
      have h2 := ih (k.osEventTaskRdy pevent pmsg pendStat)
      exact ⟨h2.1.trans h1.1, h2.2.trans h1.2⟩

theorem sameBlocks_osqPost (pevent : Nat) (pmsg : Ptr) (k : Kernel) :
    SameBlocks k (osqPost pevent pmsg k).1 := by
  unfold osqPost
  split
  · exact ⟨rfl, rfl⟩
  split
  · exact sameBlocks_osEventTaskRdy k pevent pmsg .ok
  simp only []
  split
  · exact ⟨rfl, rfl⟩
  · exact ⟨rfl, rfl⟩

theorem sameBlocks_osqPendEnter (prio : Prio) (pevent timeout : Nat) (k : Kernel) :
    SameBlocks k (osqPendEnter prio pevent timeout k).1 := by
  unfold osqPendEnter
  split
  · exact ⟨rfl, rfl⟩
  simp only []
  split
  · exact ⟨rfl, rfl⟩
  · exact ⟨by simp, by simp⟩

theorem sameBlocks_osqPendLeave (prio : Prio) (pevent : Nat) (k : Kernel) :
    SameBlocks k (osqPendLeave prio pevent k).1 := by
  cases h : (k.osTcb prio).osTcbStatPend with
  | ok => simp only [osqPendLeave, h]; exact ⟨rfl, rfl⟩
  | abort => simp only [osqPendLeave, h]; exact ⟨rfl, rfl⟩
  | timedOut => simp only [osqPendLeave, h]; exact ⟨by simp, by simp⟩

/-- `OSQCreate` fails, or takes the first free block and makes it a queue. -/
theorem osqCreate_cases (start size : Nat) (k : Kernel) :
    osqCreate start size k = (k, 0) ∨
    ∃ pevent events, k.osEventFreeList = pevent :: events ∧
      (osqCreate start size k).2 = pevent ∧
      (osqCreate start size k).1.osEventFreeList = events ∧
      (osqCreate start size k).1.type = Function.update k.type pevent .q := by
  unfold osqCreate
  cases hev : k.osEventFreeList with
  | nil => exact Or.inl rfl
  | cons pevent events =>
    cases k.osQFreeList with
    | nil => exact Or.inl rfl
    | cons pq queues =>
      refine Or.inr ⟨pevent, events, rfl, rfl, rfl, ?_⟩
      funext e
      by_cases h : e = pevent
      · subst h; simp [Kernel.type]
      · simp [Kernel.type, h]

/-- `OSQDel` refuses what is not a queue, and makes a queue a free block. -/
theorem osqDel_cases (pevent : Nat) (k : Kernel) :
    (k.type pevent ≠ .q ∧ (osqDel pevent k).1 = k) ∨
    (k.type pevent = .q ∧
      (osqDel pevent k).1.osEventFreeList = pevent :: k.osEventFreeList ∧
      (osqDel pevent k).1.type = Function.update k.type pevent .unused) := by
  unfold osqDel
  split
  · next h => exact Or.inl ⟨h, rfl⟩
  · next h =>
    have hsame := sameBlocks_osEventTaskRdyAll pevent 0 .abort 64 k
    refine Or.inr ⟨not_not.mp h, congrArg _ hsame.2, ?_⟩
    funext e
    by_cases he : e = pevent
    · subst he; simp [Kernel.type]
    · have := congrFun hsame.1 e
      simpa [Kernel.type, he] using this

end PlcFirmware.Ucos

namespace PlcFirmware.SysArch

open Infra Ucos

/-! ## What is known of a history -/

/-- The live mailboxes, the block each was last given, and the mailbox whose queue is in a block. -/
structure Registry where
  live : Nat → Bool
  block : Nat → Nat
  holder : Nat → Option Nat

namespace Registry

/-- Before any call. -/
def start : Registry := ⟨fun _ => false, fun _ => 0, fun _ => none⟩

def note (r : Registry) : Event → Registry
  | .created mbox pQ =>
    { live := Function.update r.live mbox (pQ ≠ 0)
      block := Function.update r.block mbox pQ
      holder := if pQ ≠ 0 then Function.update r.holder pQ (some mbox) else r.holder }
  | .freed mbox =>
    { r with
      live := Function.update r.live mbox false
      holder := Function.update r.holder (r.block mbox) none }
  | .invalidated mbox => { r with live := Function.update r.live mbox false }
  | _ => r

/-- After a list of events. -/
def after (r : Registry) (es : List Event) : Registry := es.foldl note r

/-- There is a queue in the block of the mailbox, its own or that of another one. -/
def HasQueue (r : Registry) (mbox : Nat) : Prop := (r.holder (r.block mbox)).isSome

end Registry

/-- The queue which the mailbox points to holds as many messages as it can. -/
def Sys.Full (s : Sys) (mbox : Nat) : Prop :=
  (s.kernel.queue (s.pQ mbox)).ring.size ≤ (s.kernel.queue (s.pQ mbox)).ring.entries

/-- No block is a queue, nothing at address `0` looks like one, and the mailboxes are cleared. -/
structure Booted (s : Sys) : Prop where
  type : ∀ e, s.kernel.type e ≠ .q
  free : 0 ∉ s.kernel.osEventFreeList
  pQ : ∀ mbox, s.pQ mbox = 0

/-- The registry agrees with the system. -/
structure Agrees (s : Sys) (r : Registry) : Prop where
  block : s.pQ = r.block
  type : ∀ e, s.kernel.type e = .q ↔ (r.holder e).isSome
  null : s.kernel.type 0 ≠ .q
  free : 0 ∉ s.kernel.osEventFreeList

namespace Agrees

variable {np : NullPointer} {s : Sys} {r : Registry}

theorem of_booted (h : Booted s) : Agrees s .start where
  block := funext h.pQ
  type := fun e => iff_of_false (h.type e) (by simp [Registry.start])
  null := h.type 0
  free := h.free

/-- A step which leaves the blocks alone. -/
theorem of_sameBlocks (h : Agrees s r) {s' : Sys} (hpQ : s'.pQ = s.pQ)
    (hk : SameBlocks s.kernel s'.kernel) : Agrees s' r where
  block := hpQ.trans h.block
  type := fun e => by rw [hk.1]; exact h.type e
  null := by rw [hk.1]; exact h.null
  free := by rw [hk.2]; exact h.free

theorem sysMboxNew (h : Agrees s r) (mbox : Nat) (size : Int) :
    Agrees (sysMboxNew mbox size s).1
      (r.note (.created mbox ((SysArch.sysMboxNew mbox size s).1.pQ mbox))) := by
  simp only [SysArch.sysMboxNew, Function.update_self, Registry.note]
  generalize (u16 (if size > maxQueueEntries then maxQueueEntries else size)).toNat = n
  rcases osqCreate_cases mbox n s.kernel with hfail | ⟨pevent, events, hev, hp, hfree, htype⟩
  · rw [hfail, if_neg (by simp)]
    exact ⟨by rw [h.block], h.type, h.null, h.free⟩
  · have hmem : 0 ∉ pevent :: events := hev ▸ h.free
    have hne : pevent ≠ 0 := fun h0 => hmem (by rw [h0]; exact List.mem_cons_self)
    rw [hp, if_pos hne]
    refine ⟨by rw [h.block], fun e => ?_, ?_, ?_⟩
    · rw [htype]
      by_cases he : e = pevent
      · subst he; simp
      · rw [Function.update_of_ne he, h.type e]
        simp only [Function.update_of_ne he]
    · rw [htype, Function.update_of_ne hne.symm]
      exact h.null
    · rw [hfree]
      exact fun h0 => hmem (List.mem_cons_of_mem _ h0)

theorem sysMboxFree (h : Agrees s r) (mbox : Nat) :
    Agrees (sysMboxFree mbox s) (r.note (.freed mbox)) := by
  have hblock : s.pQ mbox = r.block mbox := congrFun h.block mbox
  rcases osqDel_cases (s.pQ mbox) s.kernel with ⟨hne, hk⟩ | ⟨hq, hfree, htype⟩
  · -- the block is free already, or belongs to another kind of object
    refine ⟨h.block, fun e => ?_, ?_, ?_⟩
    · show (osqDel (s.pQ mbox) s.kernel).1.type e = .q ↔ (Function.update r.holder _ none e).isSome
      rw [hk, h.type e, ← hblock]
      by_cases he : e = s.pQ mbox
      · rw [he, Function.update_self]
        exact iff_of_false (fun hs => hne ((h.type _).mpr hs)) (by simp)
      · rw [Function.update_of_ne he]
    · show (osqDel (s.pQ mbox) s.kernel).1.type 0 ≠ .q
      rw [hk]
      exact h.null
    · show 0 ∉ (osqDel (s.pQ mbox) s.kernel).1.osEventFreeList
      rw [hk]
      exact h.free
  · have hne : s.pQ mbox ≠ 0 := fun h0 => h.null (h0 ▸ hq)
    refine ⟨h.block, fun e => ?_, ?_, ?_⟩
    · show (osqDel (s.pQ mbox) s.kernel).1.type e = .q ↔ (Function.update r.holder _ none e).isSome
      rw [htype, ← hblock]
      by_cases he : e = s.pQ mbox
      · rw [he, Function.update_self, Function.update_self]
        simp
      · rw [Function.update_of_ne he, Function.update_of_ne he]
        exact h.type e
    · show (osqDel (s.pQ mbox) s.kernel).1.type 0 ≠ .q
      rw [htype, Function.update_of_ne hne.symm]
      exact h.null
    · show 0 ∉ (osqDel (s.pQ mbox) s.kernel).1.osEventFreeList
      rw [hfree]
      exact fun h0 => (List.mem_cons.mp h0).elim (fun h0 => hne h0.symm) h.free

theorem sysMboxTrypost (h : Agrees s r) (mbox : Nat) (msg : Ptr) :
    Agrees (sysMboxTrypost np mbox msg s).1 r :=
  h.of_sameBlocks rfl (sameBlocks_osqPost _ _ _)

/-- **A step keeps the registry in agreement.** -/
theorem step (h : Agrees s r) (i : Input) :
    Agrees ((system np).step s i).1 (r.after ((system np).step s i).2) := by
  cases i with
  | new mbox size => exact h.sysMboxNew mbox size
  | free mbox => exact h.sysMboxFree mbox
  | setInvalid mbox => exact ⟨h.block, h.type, h.null, h.free⟩
  | post producer mbox msg =>
    simp only [system, Sys.step]
    split
    · exact h
    · exact ⟨h.block, h.type, h.null, h.free⟩
  | retry producer =>
    simp only [system, Sys.step]
    split
    · exact h
    · next mbox msg _ =>
      have ht : Agrees (SysArch.sysMboxTrypost np mbox msg s).1 r := h.sysMboxTrypost mbox msg
      cases (SysArch.sysMboxTrypost np mbox msg s).2 with
      | ok => exact ⟨ht.block, ht.type, ht.null, ht.free⟩
      | mem => exact ht
  | trypost mbox msg =>
    have ht : Agrees (SysArch.sysMboxTrypost np mbox msg s).1 r := h.sysMboxTrypost mbox msg
    simp only [system, Sys.step]
    cases (SysArch.sysMboxTrypost np mbox msg s).2 with
    | ok => exact ht
    | mem => exact ht
  | fetch task mbox timeout =>
    simp only [system, Sys.step]
    split
    · exact h
    · have hk := sameBlocks_osqPendEnter task (s.pQ mbox) (ucosTimeout timeout).toNat s.kernel
      unfold Sys.fetch
      split
      · next heq => exact h.of_sameBlocks rfl (by rw [heq] at hk; exact hk)
      · next heq => exact h.of_sameBlocks rfl (by rw [heq] at hk; exact hk)
  | resume task =>
    simp only [system, Sys.step]
    split
    · next f _ =>
      split
      · exact h.of_sameBlocks rfl (sameBlocks_osqPendLeave task f.pevent s.kernel)
      · exact h
    · exact h
  | tick => exact h.of_sameBlocks rfl ⟨rfl, rfl⟩

/-- The registry agrees with the system along every history. -/
theorem run (h : Booted s) (is : List Input) :
    Agrees ((system np).run s is) (Registry.start.after ((system np).trace s is)) :=
  (system np).run_observed Registry.note (fun _ _ i h => h.step i) (of_booted h) is

end Agrees

/-! ## `sys_mbox_valid` -/

/-- `sys_mbox_valid` asks for a queue with room. -/
theorem sysMboxValid_iff {mbox : Nat} {s : Sys} :
    sysMboxValid mbox s = 1 ↔ s.kernel.type (s.pQ mbox) = .q ∧ ¬s.Full mbox := by
  by_cases hq : s.kernel.type (s.pQ mbox) = .q
  · simp [sysMboxValid, osqQuery, hq, Sys.Full]
  · simp [sysMboxValid, osqQuery, hq]

/--
**`sys_mbox_valid` is right about a mailbox exactly where this holds:** a live mailbox points to a
queue which is not full, and what another mailbox points to is no queue, or a full one.
-/
theorem valid_iff_live_iff (np : NullPointer) {s₀ : Sys} (h₀ : Booted s₀) (is : List Input)
    (mbox : Nat) :
    let s := (system np).run s₀ is
    let r := Registry.start.after ((system np).trace s₀ is)
    (sysMboxValid mbox s = 1 ↔ r.live mbox = true) ↔
      (r.live mbox = true → r.HasQueue mbox ∧ ¬s.Full mbox) ∧
        (r.live mbox = false → r.HasQueue mbox → s.Full mbox) := by
  intro s r
  have h : Agrees s r := Agrees.run h₀ is
  have hqueue : s.kernel.type (s.pQ mbox) = .q ↔ r.HasQueue mbox := by
    rw [h.type, congrFun h.block mbox]
    rfl
  rw [sysMboxValid_iff, hqueue]
  cases r.live mbox with
  | true => simp
  | false => simp

theorem booted_start : Booted Sys.start where
  type := fun e => by simp [Sys.start, Kernel.osInit, Kernel.type]
  free := by simp [Sys.start, Kernel.osInit]
  pQ := fun _ => rfl

/-- One mailbox for one message, and the message. -/
def fillOne : List Input := [.new 3 1, .trypost 3 8]

/-- A mailbox which has room for another message, and one which has been freed. -/
def halfFull : List Input := [.new 3 2, .trypost 3 8, .new 5 1, .free 5]

theorem valid_iff_live_iff_fillOne :
    (let s := (system ⟨4, by decide⟩).run Sys.start fillOne
    let r := Registry.start.after ((system ⟨4, by decide⟩).trace Sys.start fillOne)
    (sysMboxValid 3 s = 1 ↔ r.live 3 = true) ↔
      (r.live 3 = true → r.HasQueue 3 ∧ ¬s.Full 3) ∧
        (r.live 3 = false → r.HasQueue 3 → s.Full 3)) ∧
    (let s := (system ⟨4, by decide⟩).run Sys.start halfFull
    let r := Registry.start.after ((system ⟨4, by decide⟩).trace Sys.start halfFull)
    (sysMboxValid 3 s = 1 ↔ r.live 3 = true) ∧ (sysMboxValid 5 s = 1 ↔ r.live 5 = true)) := by
  refine ⟨valid_iff_live_iff ⟨4, by decide⟩ booted_start fillOne 3, ?_, ?_⟩
  · refine (valid_iff_live_iff ⟨4, by decide⟩ booted_start halfFull 3).mpr ⟨fun _ => ⟨?_, ?_⟩, ?_⟩
    · rfl
    · exact Nat.not_le.mpr (by decide)
    · intro h
      cases h
  · refine (valid_iff_live_iff ⟨4, by decide⟩ booted_start halfFull 5).mpr ⟨fun h => ?_, fun _ h => ?_⟩
    · cases h
    · have hnone : ((Registry.start.after ((system ⟨4, by decide⟩).trace Sys.start halfFull)).holder
          2).isSome = false := by decide
      exact absurd (hnone.symm.trans h) Bool.false_ne_true

/-- The mailbox is live, and `sys_mbox_valid` says that it is not. -/
theorem full_mailbox_not_valid :
    (Registry.start.after ((system ⟨4, by decide⟩).trace Sys.start fillOne)).live 3 = true ∧
      sysMboxValid 3 ((system ⟨4, by decide⟩).run Sys.start fillOne) = 0 := by
  decide

end PlcFirmware.SysArch
