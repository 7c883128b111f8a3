import Mathlib.Data.List.Forall2
import PlcFirmware.Download.Frame

/-!
# Frames in the byte stream

The receive loops have no means to keep bytes which follow a frame: the buffer is cleared for each
frame, and a result which reaches into the next frame spoils both. The peer waits for the reply
before it sends the next frame, so this does not happen in a conversation. As long as no result holds
bytes of two frames, every cut of the stream gives the same flash calls and replies.
-/

namespace PlcFirmware.Download

open Infra Flash

variable {rx : Receiver} {hal : Nat → HalStatus} {s t s' : RxState}

/-- A well-formed frame: a start frame of 5 bytes, or a data frame as long as its header says. -/
structure Frame where
  bytes : List UInt8
  length_ge : 5 ≤ bytes.length
  length_le : bytes.length ≤ 1405
  start_length : seqOf bytes = 0 → bytes.length = 5
  data_length : seqOf bytes ≠ 0 → bytes.length = declaredOf bytes + 5

/-- The pieces are a frame cut into positive `recv` results. -/
structure Cut (f : Frame) (ps : List (List UInt8)) : Prop where
  nonempty : ∀ c ∈ ps, c ≠ []
  flatten : ps.flatten = f.bytes

theorem cut_whole (f : Frame) : Cut f [f.bytes] where
  nonempty := by
    have := f.length_ge
    intro c hc
    rw [List.mem_singleton.mp hc]
    rintro h
    rw [h] at this
    simp at this
  flatten := by simp

/-! ## One frame -/

theorem Frame.done (f : Frame) : FrameDone f.bytes := ⟨f.length_ge, f.data_length⟩

/-- No proper prefix of a frame is taken for a frame. -/
theorem Frame.done_prefix (f : Frame) {bs rest : List UInt8} (h : bs ++ rest = f.bytes)
    (hd : FrameDone bs) : rest = [] := by
  have hlen : bs.length + rest.length = f.bytes.length := by rw [← h, List.length_append]
  have hseq : seqOf f.bytes = seqOf bs := by rw [← h, seqOf_append (by have := hd.1; omega)]
  refine List.length_eq_zero_iff.mp ?_
  -- the header, which says where the frame ends, lies in the prefix already
  by_cases hs : seqOf bs = 0
  · have := f.start_length (hseq.trans hs)
    have := hd.1
    omega
  · have h1 := hd.2 hs
    have h2 := f.data_length (by rwa [hseq])
    rw [← h, declaredOf_append hd.1] at h2
    rw [h] at h2
    omega

theorem Cut.ne_nil {f : Frame} {ps : List (List UInt8)} (h : Cut f ps) : ps ≠ [] := by
  rintro rfl
  have := f.length_ge
  rw [← h.flatten] at this
  simp at this

theorem Cut.done_iff {f : Frame} {ps pre : List (List UInt8)} (h : Cut f ps) (hpre : pre <+: ps) :
    FrameDone pre.flatten ↔ pre = ps := by
  obtain ⟨rest, hrest⟩ := hpre
  constructor
  · intro hd
    have hcat : pre.flatten ++ rest.flatten = f.bytes := by
      rw [← h.flatten, ← hrest, List.flatten_append]
    have hnil := f.done_prefix hcat hd
    cases rest with
    | nil => rw [← hrest, List.append_nil]
    | cons c rest =>
      rw [List.flatten_cons, List.append_eq_nil_iff] at hnil
      exact absurd hnil.1 (h.nonempty c (by rw [← hrest]; simp))
  · rintro rfl
    rw [h.flatten]
    exact f.done

/-- The task waits for the first bytes of a frame. -/
structure Ready (s : RxState) : Prop where
  first : s.pc = .first
  flag : s.flag = false

theorem ready_start : Ready (RxState.start rx) := ⟨rfl, rfl⟩

variable (rx) (hal) in
/-- **However a frame is cut, the task does what it does with the frame as a whole.** -/
theorem run_cut {f : Frame} {ps : List (List UInt8)} (hs : Ready s) (h : Cut f ps) :
    ∃ s', Complete s' f.bytes ∧ s'.calls = s.calls ∧ s'.flag = false ∧
      (rx.task hal).run s (ps.map .data) = (s'.handle rx (rx.onFrame hal s')).1 ∧
      acts ((rx.task hal).trace s (ps.map .data)) = (rx.onFrame hal s').events := by
  have hrun := run_pieces rx hal ps (assembled_first hs.first hs.flag) h.ne_nil
    h.nonempty (by rw [List.nil_append, h.flatten]; exact f.length_le)
    (fun pre hpre _ => h.done_iff hpre)
  rwa [List.nil_append, h.flatten] at hrun

/-! ## Two runs side by side -/

/-- Both tasks are closed, or both wait for a frame, after as many HAL calls. -/
def Alike (s t : RxState) : Prop :=
  (s.pc = .closed ∧ t.pc = .closed) ∨ (Ready s ∧ Ready t ∧ s.calls = t.calls)

theorem trace_closed (hs : s.pc = .closed) (rs : List RecvResult) :
    (rx.task hal).trace s rs = [] ∧ (rx.task hal).run s rs = s := by
  induction rs with
  | nil => exact ⟨rfl, rfl⟩
  | cons r rs ih =>
    rw [Machine.trace_cons, Machine.run_cons, task_step_closed hs]
    exact ih

variable (rx) (hal) in
/-- What is done with a frame is the same for both, `g_fileSize` apart. -/
theorem onFrame_congr {f : Frame} (hs : Complete s f.bytes) (ht : Complete t f.bytes)
    (hc : s.calls = t.calls) :
    (rx.onFrame hal s).events = (rx.onFrame hal t).events ∧
      (rx.onFrame hal s).leaves = (rx.onFrame hal t).leaves ∧
      (rx.onFrame hal s).calls = (rx.onFrame hal t).calls := by
  have he : revFileFrame hal s = { revFileFrame hal t with gFileSize := s.gFileSize } :=
    hs.revFileFrame_congr ht f.length_ge f.length_le hc
  cases rx
  · simp only [Receiver.onFrame, he, Handled.events, and_self]
  · simp only [Receiver.onFrame, revServerFileFrame_eq, he, Handled.events, and_self]

theorem handle_alike {h k : Handled} (hs : s.flag = false) (ht : t.flag = false)
    (hl : h.leaves = k.leaves) (hc : h.calls = k.calls) :
    Alike (s.handle rx h).1 (t.handle rx k).1 := by
  cases hk : k.leaves with
  | true =>
    rw [handle_of_leaves (hl.trans hk), handle_of_leaves hk]
    exact Or.inl ⟨rfl, rfl⟩
  | false =>
    rw [handle_of_stays (hl.trans hk), handle_of_stays hk]
    exact Or.inr ⟨⟨rfl, hs⟩, ⟨rfl, ht⟩, hc⟩

variable (rx) (hal) in
/-- **Two cuts of the same frame lead to the same calls and replies.** -/
theorem alike_cut {f : Frame} {ps qs : List (List UInt8)} (h : Alike s t) (hp : Cut f ps)
    (hq : Cut f qs) :
    Alike ((rx.task hal).run s (ps.map .data)) ((rx.task hal).run t (qs.map .data)) ∧
      acts ((rx.task hal).trace s (ps.map .data)) =
        acts ((rx.task hal).trace t (qs.map .data)) := by
  rcases h with ⟨hs, ht⟩ | ⟨hs, ht, hcalls⟩
  · rw [(trace_closed hs _).1, (trace_closed ht _).1, (trace_closed hs _).2, (trace_closed ht _).2]
    exact ⟨Or.inl ⟨hs, ht⟩, rfl⟩
  · obtain ⟨s', hs', hsc, hsf, hsrun, hsacts⟩ := run_cut rx hal hs hp
    obtain ⟨t', ht', htc, htf, htrun, htacts⟩ := run_cut rx hal ht hq
    obtain ⟨he, hl, hc⟩ := onFrame_congr rx hal hs' ht' (by rw [hsc, htc, hcalls])
    rw [hsrun, htrun, hsacts, htacts, he]
    exact ⟨handle_alike hsf htf hl hc, rfl⟩

theorem alike_cuts {fs : List Frame} {cuts cuts' : List (List (List UInt8))} :
    ∀ {s t : RxState}, Alike s t → List.Forall₂ Cut fs cuts → List.Forall₂ Cut fs cuts' →
    acts ((rx.task hal).trace s (cuts.flatten.map .data)) =
      acts ((rx.task hal).trace t (cuts'.flatten.map .data)) := by
  induction fs generalizing cuts cuts' with
  | nil => intro s t _ hp hq; cases hp; cases hq; rfl
  | cons f fs ih =>
    intro s t h hp hq
    cases hp with
    | cons hp hps =>
      cases hq with
      | cons hq hqs =>
        obtain ⟨hnext, hacts⟩ := alike_cut rx hal h hp hq
        simp only [List.flatten_cons, List.map_append, Machine.trace_append, acts_append, hacts,
          ih hnext hps hqs]

theorem acts_events (rs : List RecvResult) :
    acts (rx.events hal rs) = acts ((rx.task hal).trace (RxState.start rx) rs) := rfl

/--
**As long as no `recv` result holds bytes of two frames, each frame may be cut in any way: the flash
calls and replies are those of the run with one result for each frame.**
-/
theorem framing_independent (rx : Receiver) (hal : Nat → HalStatus) (fs : List Frame)
    (cuts : List (List (List UInt8))) (h : List.Forall₂ Cut fs cuts) :
    acts (rx.events hal (cuts.flatten.map .data)) =
      acts (rx.events hal (fs.map fun f => .data f.bytes)) := by
  have hwhole : List.Forall₂ Cut fs (fs.map fun f => [f.bytes]) := by
    rw [List.forall₂_map_right_iff]
    exact List.forall₂_same.mpr fun f _ => cut_whole f
  have hflat : ∀ gs : List Frame, (gs.map fun f => [f.bytes]).flatten = gs.map Frame.bytes := by
    intro gs
    induction gs with
    | nil => rfl
    | cons f gs ih => simp [ih]
  rw [acts_events, acts_events, alike_cuts (Or.inr ⟨ready_start, ready_start, rfl⟩) h hwhole, hflat,
    List.map_map]
  rfl

/-- A start frame. -/
def startFrame (a b : UInt8) : Frame where
  bytes := [1, 0, 0, a, b]
  length_ge := by simp
  length_le := by simp
  start_length := by simp
  data_length := by simp [seqOf]

/-- The theorem at two start frames, one cut in its header. -/
theorem framing_independent_start :
    acts (Receiver.server.events (fun _ => .ok)
        ([[[1], [0, 0, 0, 5]], [[1, 0, 0, 0, 5]]].flatten.map .data)) =
      acts (Receiver.server.events (fun _ => .ok)
        ([startFrame 0 5, startFrame 0 5].map fun f => .data f.bytes)) :=
  framing_independent .server _ _ _
    (.cons ⟨by decide, rfl⟩ (.cons ⟨by decide, rfl⟩ .nil))

/-- Two start frames in one result are answered once. -/
theorem merged_frames_lose_one :
    ¬ ∀ (rx : Receiver) (hal : Nat → HalStatus) (fs : List Frame) (rs : List (List UInt8)),
      (∀ c ∈ rs, c ≠ []) → rs.flatten = (fs.map Frame.bytes).flatten →
      (∀ p ∈ rx.steps hal (rs.map .data), Fits rx p.1 p.2) →
      acts (rx.events hal (rs.map .data)) =
        acts (rx.events hal (fs.map fun f => .data f.bytes)) := by
  intro h
  have := h .server (fun _ => .ok) [startFrame 0 5, startFrame 0 5]
    [[1, 0, 0, 0, 5, 1, 0, 0, 0, 5]] (by decide) rfl (by decide +kernel)
  revert this
  decide +kernel

end PlcFirmware.Download
