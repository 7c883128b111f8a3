import Mathlib.Data.Finset.Card
import Mathlib.Data.Fintype.Basic
import PlcFirmware.Infra.Cyclic
import PlcFirmware.Eth.Rx

/-!
# The loop of the interrupt handler

A pass of the loop gives the descriptor it looks at back to the DMA, so that fewer and fewer are left.
It does so through `HAL_ETH_GetReceivedFrame`, which refuses while a task holds the lock of the
handle. And the loop looks at one descriptor at a time, so that it stops at a frame of several.

* `pass_spec` — what a pass does
* `drain_terminates_iff` — when the loop ends
* `drained_iff` — when the ring is empty afterwards
-/

namespace PlcFirmware.Eth

open Infra

/-- The descriptor belongs to the DMA. -/
def Owned (status : UInt32) : Prop := status &&& ethDmarxdescOwn ≠ 0

instance (status : UInt32) : Decidable (Owned status) := inferInstanceAs (Decidable (¬_))

theorem owned_or (status : UInt32) : Owned (status ||| ethDmarxdescOwn) := by
  have h : (status ||| ethDmarxdescOwn) &&& ethDmarxdescOwn = ethDmarxdescOwn := by
    apply UInt32.toBitVec_inj.mp
    simp only [UInt32.toBitVec_and, UInt32.toBitVec_or]
    ext i hi
    simp only [BitVec.getElem_and, BitVec.getElem_or]
    cases ethDmarxdescOwn.toBitVec[i] <;> simp
  rw [Owned, h]
  decide

/-! ## Giving descriptors back -/

variable {status : RxDesc → UInt32}

theorem release_keeps {i : RxDesc} (n : Nat) (h : Owned (status i)) (d : RxDesc) :
    Owned (release status d n i) := by
  induction n generalizing status d with
  | zero => exact h
  | succ n ih =>
    refine ih ?_ d.next
    by_cases hi : i = d
    · subst hi
      rw [Function.update_self]
      exact owned_or _
    · rwa [Function.update_of_ne hi]

/-- The first descriptor is given back. -/
theorem release_first (d : RxDesc) {n : Nat} (hpos : 0 < n) : Owned (release status d n d) := by
  obtain ⟨m, rfl⟩ : ∃ m, n = m + 1 := ⟨n - 1, by omega⟩
  refine release_keeps m ?_ d.next
  rw [Function.update_self]
  exact owned_or _

/-! ## A pass of the loop -/

variable {L : Lwip} {h : EthHandler}

/-- The frame length in the status of a last segment. -/
def frameLength (status : UInt32) : UInt32 :=
  (status &&& ethDmarxdescFl) >>> ethDmarxdescFramelengthshift

/-- What `ETH_GetRxPktSize` asks for. -/
theorem ethGetRxPktSize_ne_zero {status : UInt32} :
    ethGetRxPktSize status ≠ 0 ↔
      ¬Owned status ∧ status &&& ethDmarxdescEs = 0 ∧ status &&& ethDmarxdescLs ≠ 0 ∧
        frameLength status ≠ 0 := by
  unfold ethGetRxPktSize
  split
  · next hbits =>
    exact ⟨fun hlen => ⟨not_not.mpr hbits.1, hbits.2.1, hbits.2.2, hlen⟩, fun hs => hs.2.2.2⟩
  · next hbits =>
    refine iff_of_false (not_not.mpr rfl) fun hs => hbits ⟨not_not.mp hs.1, hs.2.1, hs.2.2.1⟩

/-- The first segment of the frame which ends at the descriptor. -/
def EthHandler.first (h : EthHandler) : RxDesc :=
  if h.rxFrameInfos.segCount = 0 then h.rxDesc else h.rxFrameInfos.fsRxDesc

/-- Nothing happens while the handle is locked. -/
theorem lwipPktHandle_locked (hl : h.lock = true) : lwipPktHandle L h = h := by
  simp [lwipPktHandle, ethernetifInput, lowLevelInput, halEthGetReceivedFrame, hl]

/-- **What a pass does with an unlocked handle**, whatever lwIP says to the frame. -/
theorem pass_spec (hl : h.lock = false) (hc : ethGetRxPktSize h.current ≠ 0) :
    (lwipPktHandle L h).status = release h.status h.first (h.rxFrameInfos.segCount + 1) ∧
      (lwipPktHandle L h).rxDesc = h.rxDesc.next ∧
      (lwipPktHandle L h).rxFrameInfos.segCount = 0 ∧
      (lwipPktHandle L h).lock = false := by
  obtain ⟨hown, -, hls, -⟩ := ethGetRxPktSize_ne_zero.mp hc
  have hown' : h.current &&& ethDmarxdescOwn = 0 := not_not.mp hown
  have hfst : (lwipPktHandle L h) = (lowLevelInput L h).1 := by
    unfold lwipPktHandle ethernetifInput
    split
    · next heq => rw [heq]
    · next heq => rw [heq]
  have hfirst : (if h.rxFrameInfos.segCount + 1 = 1 then h.rxDesc else h.rxFrameInfos.fsRxDesc) =
      h.first := by simp [EthHandler.first]
  rw [hfst]
  simp only [lowLevelInput, halEthGetReceivedFrame, hl, hown', hls, ne_eq, not_false_eq_true,
    if_true, hfirst, Bool.false_eq_true, if_false, and_self]

/-- A pass takes the descriptor which is next, and gives it back. -/
def Consumes (h h' : EthHandler) : Prop :=
  h'.rxDesc = h.rxDesc.next ∧ (h.rxFrameInfos.segCount = 0 → Owned (h'.status h.rxDesc))

theorem pass_consumes (hl : h.lock = false) (hc : ethGetRxPktSize h.current ≠ 0) :
    Consumes h (lwipPktHandle L h) := by
  obtain ⟨hst, hrx, -, -⟩ := pass_spec (L := L) hl hc
  refine ⟨hrx, fun hseg => ?_⟩
  have hfirst : h.first = h.rxDesc := if_pos hseg
  rw [hst, hfirst]
  exact release_first _ (Nat.succ_pos _)

/-! ## The end of the loop -/

/-- The descriptors which the DMA has filled. -/
def EthHandler.filled (h : EthHandler) : Finset RxDesc :=
  Finset.univ.filter fun d => ¬Owned (h.status d)

/--
What a pass lowers: the number of filled descriptors, and one more before the first pass if a frame
has been begun.
-/
def EthHandler.left (h : EthHandler) : Nat :=
  h.filled.card + if h.rxFrameInfos.segCount = 0 then 0 else 1

theorem pass_lowers (hl : h.lock = false) (hc : ethGetRxPktSize h.current ≠ 0) :
    (lwipPktHandle L h).left < h.left := by
  obtain ⟨hst, -, hseg, -⟩ := pass_spec (L := L) hl hc
  have hsub : (lwipPktHandle L h).filled ⊆ h.filled := by
    intro d hd
    simp only [EthHandler.filled, Finset.mem_filter, Finset.mem_univ, true_and, hst] at hd ⊢
    exact fun ho => hd (release_keeps _ ho _)
  have hle := Finset.card_le_card hsub
  unfold EthHandler.left
  rw [if_pos hseg]
  by_cases h0 : h.rxFrameInfos.segCount = 0
  · have hin : h.rxDesc ∈ h.filled := by
      simp only [EthHandler.filled, Finset.mem_filter, Finset.mem_univ, true_and]
      exact (ethGetRxPktSize_ne_zero.mp hc).1
    have hout : h.rxDesc ∉ (lwipPktHandle L h).filled := by
      simp only [EthHandler.filled, Finset.mem_filter, Finset.mem_univ, true_and, not_not]
      exact (pass_consumes hl hc).2 h0
    have hlt := Finset.card_lt_card
      ((Finset.ssubset_iff_of_subset hsub).mpr ⟨h.rxDesc, hin, hout⟩)
    rw [if_pos h0]
    omega
  · rw [if_neg h0]
    omega

theorem cond_eq_true : (ethIrqHandler L).cond h = true ↔ ethGetRxPktSize h.current ≠ 0 := by
  simp [ethIrqHandler]

/-- **With an unlocked handle the loop ends.** -/
theorem terminates_of_unlocked (hl : h.lock = false) : (ethIrqHandler L).Terminates h := by
  refine While.terminates_of_measure (I := fun h => h.lock = false) EthHandler.left ?_ hl
  intro h hl hc
  have hc' := cond_eq_true.mp hc
  exact ⟨(pass_spec hl hc').2.2.2, pass_lowers hl hc'⟩

/-- **With a locked handle and a frame at the next descriptor it does not.** -/
theorem not_terminates_of_locked (hl : h.lock = true) (hc : ethGetRxPktSize h.current ≠ 0) :
    ¬(ethIrqHandler L).Terminates h := by
  refine While.not_terminates (I := fun t => t = h) ?_ ?_ rfl
  · rintro t rfl
    exact cond_eq_true.mpr hc
  · rintro t rfl
    exact lwipPktHandle_locked hl

/--
**The loop ends, and each of its passes consumes a descriptor, if and only if** nobody holds the lock
of the handle or there is nothing to do.
-/
theorem drain_terminates_iff (L : Lwip) (h : EthHandler) :
    ((ethIrqHandler L).Terminates h ∧
        ∀ t, (ethIrqHandler L).Round h t → Consumes t (lwipPktHandle L t)) ↔
      h.lock = false ∨ ethGetRxPktSize h.current = 0 := by
  constructor
  · rintro ⟨hterm, -⟩
    by_contra hno
    obtain ⟨hl, hc⟩ := not_or.mp hno
    exact not_terminates_of_locked (by simpa using hl) hc hterm
  · rintro (hl | hc)
    · refine ⟨terminates_of_unlocked hl, fun t ht => ?_⟩
      have hlt : t.lock = false := by
        refine ht.invariant (I := fun t => t.lock = false) (fun s hs hcs => ?_) hl
        exact (pass_spec hs (cond_eq_true.mp hcs)).2.2.2
      exact pass_consumes hlt (cond_eq_true.mp ht.cond_true)
    · have hf : (ethIrqHandler L).cond h = false := by simp [ethIrqHandler, hc]
      refine ⟨⟨h, .stop hf⟩, fun t ht => ?_⟩
      -- there is no first pass
      have hno : ∀ t, ¬(ethIrqHandler L).Round h t := by
        intro t ht
        induction ht with
        | first h1 => rw [hf] at h1; cases h1
        | next _ _ ih => exact ih
      exact absurd ht (hno t)

/-- A handle with this frame, of 64 bytes, in all descriptors. -/
def EthHandler.filledWith (status : UInt32) (lock : Bool) : EthHandler where
  status := fun _ => status
  rxBuff := fun _ _ => 0
  rxDesc := ⟨0, by decide⟩
  rxFrameInfos := ⟨⟨0, by decide⟩, none, 0, 0, ⟨0, by decide⟩⟩
  lock := lock
  rbus := false
  allocs := 0

/-- lwIP with pbufs for every frame. -/
def Lwip.spare : Lwip := ⟨fun _ len => some [len.toNat], fun _ => .ok⟩

/-- A task is in `HAL_ETH_TransmitFrame`, and a frame of 64 bytes has come in. -/
theorem locked_handle_spins :
    ¬((ethIrqHandler .spare).Terminates (.filledWith 0x00400300 true) ∧
      ∀ t, (ethIrqHandler .spare).Round (.filledWith 0x00400300 true) t →
        Consumes t (lwipPktHandle .spare t)) :=
  fun h => not_terminates_of_locked rfl (by decide) h.1

/-- **Between two interrupts no frame is begun**: what the loop finds so, it leaves so. -/
theorem ends_idle {h' : EthHandler} (hends : (ethIrqHandler L).Ends h h')
    (hseg : h.rxFrameInfos.segCount = 0) : h'.rxFrameInfos.segCount = 0 := by
  refine hends.invariant (I := fun t => t.rxFrameInfos.segCount = 0) (fun t ht hc => ?_) hseg
  cases hl : t.lock with
  | false => exact (pass_spec hl (cond_eq_true.mp hc)).2.2.1
  | true =>
    have hsame : (ethIrqHandler L).body t = t := lwipPktHandle_locked hl
    rw [hsame]
    exact ht

/-! ## Whole frames -/

/-- The descriptors of a frame which the DMA has completed, from the first segment to the last. -/
structure WholeFrame (f : List UInt32) : Prop where
  ne_nil : f ≠ []
  filled : ∀ st ∈ f, ¬Owned st
  first : ∀ (j : Nat) (hj : j < f.length), f[j] &&& ethDmarxdescFs ≠ 0 ↔ j = 0
  last : ∀ (j : Nat) (hj : j < f.length), f[j] &&& ethDmarxdescLs ≠ 0 ↔ j + 1 = f.length

/-- From the next descriptor on the ring holds these frames; the other descriptors are the DMA's. -/
structure Completed (h : EthHandler) (frames : List (List UInt32)) : Prop where
  whole : ∀ f ∈ frames, WholeFrame f
  fits : frames.flatten.length ≤ 5
  here : ∀ (j : Nat) (hj : j < frames.flatten.length),
    h.status (h.rxDesc + Fin.ofNat 5 j) = frames.flatten[j]
  rest : ∀ j, frames.flatten.length ≤ j → j < 5 → Owned (h.status (h.rxDesc + Fin.ofNat 5 j))

/-- A frame in one descriptor, without error and not empty. -/
def Single (f : List UInt32) : Prop :=
  ∃ st, f = [st] ∧ st &&& ethDmarxdescEs = 0 ∧ frameLength st ≠ 0

namespace Completed

variable {f : List UInt32} {frames : List (List UInt32)}

/-- The next descriptor is the first of the first frame. -/
theorem exists_current (hc : Completed h (f :: frames)) :
    ∃ st sts, f = st :: sts ∧ h.current = st := by
  obtain ⟨st, sts, rfl⟩ := List.exists_cons_of_ne_nil (hc.whole f List.mem_cons_self).ne_nil
  have hzero : h.rxDesc + Fin.ofNat 5 0 = h.rxDesc := Fin.ext (by simp)
  have hst := hc.here 0 (by simp)
  rw [hzero] at hst
  exact ⟨st, sts, rfl, hst⟩

/-- The loop goes on exactly at a single frame. -/
theorem size_ne_zero_iff (hc : Completed h (f :: frames)) :
    ethGetRxPktSize h.current ≠ 0 ↔ Single f := by
  have hw := hc.whole f List.mem_cons_self
  obtain ⟨st, sts, rfl, hcur⟩ := hc.exists_current
  rw [hcur, ethGetRxPktSize_ne_zero]
  have hlast : st &&& ethDmarxdescLs ≠ 0 ↔ 0 + 1 = (st :: sts).length := hw.last 0 (by simp)
  constructor
  · rintro ⟨-, hes, hls, hlen⟩
    have hnil : sts = [] := by
      have := hlast.mp hls
      rw [List.length_cons] at this
      exact List.eq_nil_of_length_eq_zero (by omega)
    exact ⟨st, by rw [hnil], hes, hlen⟩
  · rintro ⟨st', heq, hes, hlen⟩
    obtain ⟨rfl, rfl⟩ := List.cons.inj heq
    exact ⟨hw.filled _ List.mem_cons_self, hes, hlast.mpr rfl, hlen⟩

/-- **A pass at a single frame leaves the frames behind it.** -/
theorem pass (hc : Completed h (f :: frames)) (hl : h.lock = false)
    (hseg : h.rxFrameInfos.segCount = 0) (hf : Single f) :
    Completed (lwipPktHandle L h) frames := by
  obtain ⟨hst, hrx, -, -⟩ := pass_spec (L := L) hl (hc.size_ne_zero_iff.mpr hf)
  have hst' : (lwipPktHandle L h).status =
      Function.update h.status h.rxDesc (h.status h.rxDesc ||| ethDmarxdescOwn) := by
    rw [hst, hseg, EthHandler.first, if_pos hseg]
    rfl
  obtain ⟨st, rfl, -, -⟩ := hf
  have hlen : ([st] :: frames).flatten.length = frames.flatten.length + 1 := by simp
  have hfits := hc.fits
  rw [hlen] at hfits
  refine ⟨fun g hg => hc.whole g (List.mem_cons_of_mem _ hg), by omega, fun j hj => ?_,
    fun j hj hj5 => ?_⟩
  · rw [hst', hrx, RxDesc.next, next_place, Function.update_of_ne (place_ne (by omega) (by omega)),
      hc.here (j + 1) (by omega)]
    rfl
  · rw [hst', hrx, RxDesc.next, next_place]
    by_cases h4 : j = 4
    · -- the descriptor which has just been given back
      subst h4
      rw [place_self, Function.update_self]
      exact owned_or _
    · rw [Function.update_of_ne (place_ne (by omega) (by omega))]
      exact hc.rest (j + 1) (by omega) (by omega)

end Completed

/--
**The loop drains a ring of completed frames if and only if** each of them is in a single descriptor,
without error and not empty.
-/
theorem drained_iff (L : Lwip) {h : EthHandler} {frames : List (List UInt32)}
    (hl : h.lock = false) (hseg : h.rxFrameInfos.segCount = 0) (hc : Completed h frames) :
    ∃ h', (ethIrqHandler L).Ends h h' ∧ (Owned h'.current ↔ ∀ f ∈ frames, Single f) ∧
      ((∀ d, Owned (h'.status d)) ↔ ∀ f ∈ frames, Single f) := by
  induction frames generalizing h with
  | nil =>
    have hall : ∀ d, Owned (h.status d) := by
      intro d
      obtain ⟨j, hj, rfl⟩ := exists_place h.rxDesc d
      exact hc.rest j (Nat.zero_le j) hj
    have hstop : (ethIrqHandler L).cond h = false := by
      rw [← Bool.not_eq_true, cond_eq_true, ethGetRxPktSize_ne_zero]
      exact fun hs => hs.1 (hall h.rxDesc)
    have hframes : ∀ f ∈ ([] : List (List UInt32)), Single f := by simp
    exact ⟨h, .stop hstop, iff_of_true (hall h.rxDesc) hframes, iff_of_true hall hframes⟩
  | cons f frames ih =>
    by_cases hf : Single f
    · have hsize := hc.size_ne_zero_iff.mpr hf
      obtain ⟨-, -, hseg', hl'⟩ := pass_spec (L := L) hl hsize
      obtain ⟨h', hends, hiff, hall⟩ := ih hl' hseg' (hc.pass hl hseg hf)
      have hframes : (∀ g ∈ frames, Single g) ↔ ∀ g ∈ f :: frames, Single g := by simp [hf]
      exact ⟨h', .round (cond_eq_true.mpr hsize) hends, hiff.trans hframes, hall.trans hframes⟩
    · -- the loop stops in front of the frame
      have hstop : (ethIrqHandler L).cond h = false := by
        rw [← Bool.not_eq_true, cond_eq_true, hc.size_ne_zero_iff]
        exact hf
      have hno : ¬Owned h.current := by
        obtain ⟨st, sts, rfl, hcur⟩ := hc.exists_current
        rw [hcur]
        exact (hc.whole _ List.mem_cons_self).filled _ List.mem_cons_self
      have hframes : ¬∀ g ∈ f :: frames, Single g := fun hall => hf (hall f List.mem_cons_self)
      exact ⟨h, .stop hstop, iff_of_false hno hframes,
        iff_of_false (fun hall => hno (hall h.rxDesc)) hframes⟩

/-- Five frames of 64 bytes fill the ring, and are taken. -/
theorem drained_iff_filled :
    ∃ h', (ethIrqHandler .spare).Ends (.filledWith 0x00400300 false) h' ∧
      (Owned h'.current ↔ ∀ f ∈ List.replicate 5 [(0x00400300 : UInt32)], Single f) ∧
      ((∀ d, Owned (h'.status d)) ↔ ∀ f ∈ List.replicate 5 [(0x00400300 : UInt32)], Single f) := by
  refine drained_iff .spare rfl rfl ⟨?_, by decide, by decide, ?_⟩
  · intro f hf
    obtain rfl := List.eq_of_mem_replicate hf
    exact ⟨by decide, List.forall_mem_singleton.mpr (by decide), by decide, by decide⟩
  · intro j hj hj5
    exact absurd hj (by simpa using hj5)

/-- A handle with a frame of two descriptors, the other three are the DMA's. -/
def EthHandler.spanned : EthHandler :=
  { EthHandler.filledWith ethDmarxdescOwn false with
    status := fun d =>
      if d.val = 0 then 0x00000200 else if d.val = 1 then 0x06000100 else ethDmarxdescOwn }

/-- It stays in the ring: the loop ends at once. -/
theorem spanned_frame_stays :
    Completed .spanned [[0x00000200, 0x06000100]] ∧ EthHandler.spanned.lock = false ∧
      ¬∃ h', (ethIrqHandler .spare).Ends .spanned h' ∧ Owned h'.current := by
  refine ⟨⟨?_, by decide, by decide, ?_⟩, rfl, ?_⟩
  · intro f hf
    obtain rfl := List.mem_singleton.mp hf
    have hfilled : ∀ st ∈ [(0x00000200 : UInt32), 0x06000100], ¬Owned st :=
      List.forall_mem_cons.mpr ⟨by decide, List.forall_mem_singleton.mpr (by decide)⟩
    exact ⟨by decide, hfilled, by decide, by decide⟩
  · intro j hj hj5
    have hj2 : 2 ≤ j := hj
    obtain rfl | rfl | rfl : j = 2 ∨ j = 3 ∨ j = 4 := by omega
    all_goals decide
  · rintro ⟨h', hends, hown⟩
    have hstop : (ethIrqHandler .spare).cond .spanned = false := by decide
    obtain rfl := While.ends_of_false hstop hends
    exact absurd hown (by decide)

end PlcFirmware.Eth
