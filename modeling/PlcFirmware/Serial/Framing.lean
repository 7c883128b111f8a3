import Mathlib.Data.List.Infix
import PlcFirmware.Infra.Machine
import PlcFirmware.Serial.Receive

/-!
# Which lines are executed

A line of the stream is what lies between two occurrences of CR LF, or between the start and the first.
The receiver takes the line for the stream's as long as it has begun to collect where the line begins. It
begins anew in the middle of a line in three cases: after a CR which no LF follows, after the 200th
character, and when a line is taken out while a part of the next has already come and been dropped. Then
what it collects up to the next CR LF is not a line of the stream, and it is executed all the same.

* `since_split` — the line the stream is in
* `inSync_step` — which steps keep the receiver with the stream
* `ended_prefix` — a line which is executed has ended in the stream
* `linesComplete_iff` — when every line which is executed is a line of the stream
-/

namespace PlcFirmware.Serial

open Infra

/-! ## The lines of a stream -/

/-- A line begins here: at the start, or behind a CR LF. -/
def AtStart (before : List UInt8) : Prop := before = [] ∨ [cr, lf] <:+ before

/-- The stream ends with CR LF, and in front of it lies exactly this line. -/
def CompleteLine (stream line : List UInt8) : Prop :=
  ∃ before, stream = before ++ line ++ [cr, lf] ∧ AtStart before ∧ ¬[cr, lf] <:+: line ++ [cr]

/-- The bytes since the last CR LF, with one more byte. -/
def grow (line : List UInt8) (b : UInt8) : List UInt8 :=
  if b = lf ∧ line.getLast? = some cr then [] else line ++ [b]

/-- The bytes of the stream since the last CR LF. -/
def since (stream : List UInt8) : List UInt8 := stream.foldl grow []

theorem since_append (stream : List UInt8) (b : UInt8) :
    since (stream ++ [b]) = grow (since stream) b := by
  rw [since, List.foldl_append]
  rfl

theorem grow_of_ne {line : List UInt8} {b : UInt8} (h : b ≠ lf) : grow line b = line ++ [b] :=
  if_neg fun hand => h hand.1

theorem crlf_suffix_iff {line : List UInt8} {b : UInt8} :
    [cr, lf] <:+ line ++ [b] ↔ b = lf ∧ line.getLast? = some cr := by
  constructor
  · rintro ⟨t, ht⟩
    rw [show t ++ [cr, lf] = t ++ [cr] ++ [lf] by simp] at ht
    obtain ⟨rfl, hb⟩ := List.append_inj' ht rfl
    exact ⟨(List.singleton_inj.mp hb).symm, List.getLast?_concat⟩
  · rintro ⟨rfl, hlast⟩
    obtain ⟨t, rfl⟩ := List.getLast?_eq_some_iff.mp hlast
    exact ⟨t, by simp⟩

theorem crlf_infix_iff {line : List UInt8} {b : UInt8} :
    [cr, lf] <:+: line ++ [b] ↔ (b = lf ∧ line.getLast? = some cr) ∨ [cr, lf] <:+: line := by
  rw [List.infix_concat_iff, crlf_suffix_iff]

/-- **The stream is split where its last line begins.** -/
theorem since_split (stream : List UInt8) :
    ∃ before, stream = before ++ since stream ∧ AtStart before ∧ ¬[cr, lf] <:+: since stream := by
  induction stream using List.reverseRecOn with
  | nil => exact ⟨[], rfl, .inl rfl, by rw [since, List.foldl_nil, List.infix_nil]; exact nofun⟩
  | append_singleton stream b ih =>
    obtain ⟨before, hsplit, hstart, hnone⟩ := ih
    rw [since_append]
    unfold grow
    by_cases hend : b = lf ∧ (since stream).getLast? = some cr
    · -- the byte ends the line
      rw [if_pos hend]
      refine ⟨stream ++ [b], (List.append_nil _).symm, .inr ?_, by
        rw [List.infix_nil]; exact nofun⟩
      have hsuffix := crlf_suffix_iff.mpr hend
      rw [hsplit, List.append_assoc]
      exact hsuffix.trans (List.suffix_append _ _)
    · rw [if_neg hend]
      refine ⟨before, by rw [← List.append_assoc, ← hsplit], hstart, fun hin => ?_⟩
      rcases crlf_infix_iff.mp hin with h | h
      · exact hend h
      · exact hnone h

theorem since_atStart {before : List UInt8} (h : AtStart before) : since before = [] := by
  rcases h with rfl | ⟨t, rfl⟩
  · rfl
  · rw [show t ++ [cr, lf] = t ++ [cr] ++ [lf] by simp, since_append, since_append,
      grow_of_ne (b := cr) (by decide), grow, if_pos ⟨rfl, List.getLast?_concat⟩]

theorem since_of_split {before line : List UInt8} (hstart : AtStart before)
    (hnone : ¬[cr, lf] <:+: line) : since (before ++ line) = line := by
  induction line using List.reverseRecOn with
  | nil => rw [List.append_nil, since_atStart hstart]
  | append_singleton line b ih =>
    rw [crlf_infix_iff, not_or] at hnone
    rw [← List.append_assoc, since_append, ih hnone.2, grow, if_neg hnone.1]

/-- **A line is complete if it is all that the stream was in when its CR had come.** -/
theorem since_complete_iff {stream line : List UInt8} :
    CompleteLine (stream ++ [lf]) line ↔ since stream = line ++ [cr] := by
  constructor
  · rintro ⟨before, heq, hstart, hnone⟩
    rw [show before ++ line ++ [cr, lf] = before ++ (line ++ [cr]) ++ [lf] by simp] at heq
    rw [List.append_cancel_right heq]
    exact since_of_split hstart hnone
  · intro h
    obtain ⟨before, hsplit, hstart, hnone⟩ := since_split stream
    refine ⟨before, ?_, hstart, h ▸ hnone⟩
    rw [h] at hsplit
    rw [hsplit]
    simp

/-! ## The receiver and the stream -/

/-- The receiver, with what has come of the stream and what had come when the line in the buffer ended.
The last two are no variables of the program. -/
structure Console where
  usart : Usart
  seen : List UInt8
  ended : List UInt8

inductive Input
  | byte (b : UInt8)
  | scan

/-- A line which is handed to `usmart_cmd_rec`, and the stream up to its end. -/
structure Handed where
  line : List UInt8
  ended : List UInt8
  deriving DecidableEq

/-- A byte comes, or `usmart_scan` is called. -/
def Console.step (s : Console) : Input → Console × List Handed
  | .byte b =>
    let usart := halUartRxCpltCallback b s.usart
    let ends := s.usart.rxSta &&& 0x8000 = 0 ∧ usart.rxSta &&& 0x8000 ≠ 0
    (⟨usart, s.seen ++ [b], if ends then s.seen ++ [b] else s.ended⟩, [])
  | .scan =>
    match usmartScan s.usart with
    | (usart, some line) => ({ s with usart := usart }, [⟨line, s.ended⟩])
    | (usart, none) => ({ s with usart := usart }, [])

def console : Machine Console Input Handed := ⟨Console.step⟩

/-- Nothing has come; the buffer may hold anything. -/
def Console.start (rxBuf : Nat → UInt8) : Console := ⟨⟨0, rxBuf⟩, [], []⟩

/-- The bytes which the receiver has taken since it began to collect. -/
def Collected.taken (c : Collected) : List UInt8 :=
  match c.phase with
  | .cr => c.line ++ [cr]
  | _ => c.line

/-- What has been collected is the end of the stream. -/
structure Tracks (s : Console) (c : Collected) : Prop where
  shows : Shows s.usart c
  text : cr ∉ c.line
  taken : c.phase ≠ .full → c.taken <:+ s.seen
  ended : c.phase = .full → ∃ stream, s.ended = stream ++ [lf]

/-- The receiver has begun where the line of the stream begins. -/
def InSync (s : Console) (c : Collected) : Prop :=
  if c.phase = .full then CompleteLine s.ended c.line else c.taken = since s.seen

/-- A step after which the receiver is in the middle of a line: a byte which is not the LF behind a CR, the
200th character, or a call of `usmart_scan` which takes a line out while the next has begun. -/
def Desync (s : Console) : Input → Prop
  | .byte b => s.usart.rxSta &&& 0x8000 = 0 ∧
    if s.usart.rxSta &&& 0x4000 ≠ 0 then b ≠ lf
    else b ≠ cr ∧ (s.usart.rxSta &&& 0x3FFF).toNat = 199
  | .scan => s.usart.rxSta &&& 0x8000 ≠ 0 ∧ since s.seen ≠ []

/-! ## One step -/

variable {s : Console} {c : Collected}

namespace Tracks

theorem full_iff (h : Tracks s c) : s.usart.rxSta &&& 0x8000 = 0 ↔ c.phase ≠ .full :=
  h.shows.full_iff

theorem text_iff (h : Tracks s c) : s.usart.rxSta &&& 0x4000 = 0 ↔ c.phase = .text :=
  h.shows.text_iff

theorem length_eq (h : Tracks s c) : (s.usart.rxSta &&& 0x3FFF).toNat = c.line.length :=
  h.shows.length_eq

/-- The state after a byte. -/
theorem step_byte (h : Tracks s c) (b : UInt8) :
    console.step s (.byte b) = (⟨halUartRxCpltCallback b s.usart, s.seen ++ [b],
      if c.phase ≠ .full ∧ (c.byte b).phase = .full then s.seen ++ [b] else s.ended⟩, []) := by
  have hfull := (shows_byte h.shows b).full_iff
  simp only [console, Console.step, h.full_iff, ne_eq, hfull, not_not]

theorem step_scan_full (h : Tracks s c) (hp : c.phase = .full) :
    ∃ f, console.step s .scan = ({ s with usart := ⟨0, f⟩ }, [⟨c.line, s.ended⟩]) := by
  obtain ⟨f, hf⟩ := usmartScan_full h.shows hp
  exact ⟨f, by simp only [console, Console.step, hf]⟩

theorem step_scan_of_ne_full (h : Tracks s c) (hp : c.phase ≠ .full) :
    console.step s .scan = (s, []) := by
  simp only [console, Console.step, usmartScan_of_ne_full h.shows hp]

end Tracks

/-- The step of the receiver without the bits. -/
def Collected.step (c : Collected) : Input → Collected
  | .byte b => c.byte b
  | .scan => if c.phase = .full then ⟨.text, []⟩ else c

theorem snoc_suffix {xs ys : List UInt8} (h : xs <:+ ys) (b : UInt8) : xs ++ [b] <:+ ys ++ [b] :=
  List.suffix_append_self_iff.mpr h

/-- The receiver has begun anew. -/
theorem tracks_nil {u : Usart} (hshows : Shows u ⟨.text, []⟩) (seen ended : List UInt8) :
    Tracks ⟨u, seen, ended⟩ ⟨.text, []⟩ where
  shows := hshows
  text := List.not_mem_nil
  taken := fun _ => List.nil_suffix
  ended := fun hp => absurd hp Phase.text_ne_full

/-- **What is collected stays the end of the stream.** -/
theorem tracks_step (h : Tracks s c) (i : Input) : Tracks (console.step s i).1 (c.step i) := by
  cases i with
  | scan =>
    by_cases hp : c.phase = .full
    · obtain ⟨f, hf⟩ := h.step_scan_full hp
      rw [hf, Collected.step, if_pos hp]
      exact tracks_nil (shows_nil f) s.seen s.ended
    · rw [h.step_scan_of_ne_full hp, Collected.step, if_neg hp]
      exact h
  | byte b =>
    have hshows := shows_byte h.shows b
    rw [h.step_byte, Collected.step]
    obtain ⟨phase, line⟩ := c
    have htext := h.text
    cases phase with
    | full =>
      refine ⟨hshows, htext, fun hne => absurd rfl hne, fun _ => ?_⟩
      rw [if_neg fun hand => hand.1 rfl]
      exact h.ended rfl
    | cr =>
      simp only [Collected.byte] at hshows ⊢
      by_cases hb : b = lf
      · rw [if_pos hb] at hshows ⊢
        refine ⟨hshows, htext, fun hne => absurd rfl hne, fun _ => ⟨s.seen, ?_⟩⟩
        rw [if_pos ⟨Phase.cr_ne_full, rfl⟩, hb]
      · rw [if_neg hb] at hshows ⊢
        exact tracks_nil hshows _ _
    | text =>
      have htaken : line <:+ s.seen := h.taken Phase.text_ne_full
      simp only [Collected.byte] at hshows ⊢
      by_cases hb : b = cr
      · rw [if_pos hb] at hshows ⊢
        exact ⟨hshows, htext, fun _ => hb ▸ snoc_suffix htaken b,
          fun hp => absurd hp Phase.cr_ne_full⟩
      · rw [if_neg hb] at hshows ⊢
        by_cases hlast : line.length = 199
        · rw [if_pos hlast] at hshows ⊢
          exact tracks_nil hshows _ _
        · rw [if_neg hlast] at hshows ⊢
          refine ⟨hshows, fun hmem => ?_, fun _ => snoc_suffix htaken b,
            fun hp => absurd hp Phase.text_ne_full⟩
          rcases List.mem_append.mp hmem with hmem | hmem
          · exact htext hmem
          · exact hb (List.mem_singleton.mp hmem).symm

/-- A line of 199 characters which has begun in the middle of the stream's line does not end it. -/
theorem since_ne_of_suffix {seen line : List UInt8} {b : UInt8} (hline : line <:+ seen)
    (hno : cr ∉ line) (hne : line ≠ []) : since (seen ++ [b]) ≠ [] := by
  obtain ⟨before, hsplit, -, -⟩ := since_split seen
  rw [since_append, grow]
  split
  · next hand =>
    obtain ⟨t, ht⟩ := List.getLast?_eq_some_iff.mp hand.2
    obtain ⟨x, hx⟩ := hline
    -- the CR in front of the byte would be the last of the line
    have hlast : line.getLast hne = cr := by
      have heq : x ++ line = before ++ t ++ [cr] := by rw [hx, hsplit, ht, List.append_assoc]
      have hl := congrArg List.getLast? heq
      rw [List.getLast?_append_of_ne_nil _ hne, List.getLast?_concat,
        List.getLast?_eq_some_getLast hne] at hl
      exact Option.some.inj hl
    exact absurd (hlast ▸ List.getLast_mem hne) hno
  · exact List.append_ne_nil_of_right_ne_nil _ (List.cons_ne_nil _ _)

theorem Tracks.desync_byte_iff (h : Tracks s c) (b : UInt8) :
    Desync s (.byte b) ↔
      (c.phase = .cr ∧ b ≠ lf) ∨ (c.phase = .text ∧ b ≠ cr ∧ c.line.length = 199) := by
  simp only [Desync, h.full_iff, ne_eq, h.text_iff, h.length_eq]
  cases c.phase <;> simp

theorem Tracks.desync_scan_iff (h : Tracks s c) :
    Desync s .scan ↔ c.phase = .full ∧ since s.seen ≠ [] := by
  simp only [Desync, ne_eq, h.full_iff, not_not]

/-- **Which bytes keep the receiver with the stream.** -/
theorem inSync_byte (h : Tracks s c) (b : UInt8) :
    InSync (console.step s (.byte b)).1 (c.step (.byte b)) ↔ InSync s c ∧ ¬Desync s (.byte b) := by
  rw [h.desync_byte_iff, h.step_byte, Collected.step]
  have hno := h.text
  have htaken := h.taken
  obtain ⟨phase, line⟩ := c
  cases phase with
  | full =>
    simp only [Collected.byte]
    rw [if_neg fun hand => hand.1 rfl]
    simp [InSync]
  | cr =>
    simp only [Collected.byte]
    by_cases hb : b = lf
    · -- the line ends
      rw [if_pos hb, if_pos ⟨Phase.cr_ne_full, rfl⟩, hb]
      simp [InSync, Collected.taken, since_complete_iff, eq_comm]
    · have hgrow : since (s.seen ++ [b]) ≠ [] := by
        rw [since_append, grow_of_ne hb]
        exact List.append_ne_nil_of_right_ne_nil _ (List.cons_ne_nil _ _)
      rw [if_neg hb]
      simp [InSync, Collected.taken, hgrow.symm, hb]
  | text =>
    have hsuffix : line <:+ s.seen := htaken Phase.text_ne_full
    simp only [Collected.byte]
    by_cases hb : b = cr
    · have hgrow : since (s.seen ++ [cr]) = since s.seen ++ [cr] := by
        rw [since_append, grow_of_ne (by decide)]
      rw [if_pos hb, hb]
      simp [InSync, Collected.taken, hgrow]
    · rw [if_neg hb]
      by_cases hlast : line.length = 199
      · -- a line is given up in its middle
        have hne : line ≠ [] := List.ne_nil_of_length_pos (by omega)
        have hgrow : since (s.seen ++ [b]) ≠ [] := since_ne_of_suffix hsuffix hno hne
        rw [if_pos hlast]
        simp [InSync, Collected.taken, hlast, hb, hgrow.symm]
      · have hiff : line ++ [b] = since (s.seen ++ [b]) ↔ line = since s.seen := by
          rw [since_append, grow]
          split
          · next hand =>
            refine iff_of_false (by simp) fun heq => hno ?_
            rw [heq]
            exact List.mem_of_getLast? hand.2
          · exact ⟨List.append_cancel_right, fun heq => by rw [heq]⟩
        rw [if_neg hlast]
        simp [InSync, Collected.taken, hlast, hb, hiff]

/-- **A call of `usmart_scan` hands over a line of the stream if the receiver was with the stream, and then
it is with the stream if nothing of the next line has come.** -/
theorem inSync_scan (h : Tracks s c) (hp : c.phase = .full) :
    (InSync s c ↔ CompleteLine s.ended c.line) ∧
      (InSync (console.step s .scan).1 (c.step .scan) ↔ ¬Desync s .scan) := by
  obtain ⟨f, hf⟩ := h.step_scan_full hp
  rw [h.desync_scan_iff, hf, Collected.step, if_pos hp, InSync, if_pos hp]
  refine ⟨Iff.rfl, ?_⟩
  simp [InSync, Collected.taken, hp, @eq_comm _ []]

/-! ## Runs -/

/-- The step hands a line over. -/
def Hands (s : Console) (i : Input) : Prop := i = .scan ∧ s.usart.rxSta &&& 0x8000 ≠ 0

/-- Every line which is handed over is complete. -/
def AllComplete (hs : List Handed) : Prop := ∀ h ∈ hs, CompleteLine h.ended h.line

theorem AllComplete.append_iff {hs ks : List Handed} :
    AllComplete (hs ++ ks) ↔ AllComplete hs ∧ AllComplete ks := List.forall_mem_append

theorem AllComplete.singleton_iff {h : Handed} : AllComplete [h] ↔ CompleteLine h.ended h.line :=
  List.forall_mem_singleton

theorem AllComplete.nil : AllComplete [] := List.forall_mem_nil _

/-- What a step hands over, and whether it keeps the receiver with the stream. -/
theorem inSync_step (h : Tracks s c) (i : Input) :
    (InSync s c → AllComplete (console.step s i).2 ∧
      (InSync (console.step s i).1 (c.step i) ↔ ¬Desync s i)) ∧
    (¬InSync s c → (Hands s i ∧ ¬AllComplete (console.step s i).2) ∨
      (¬Hands s i ∧ AllComplete (console.step s i).2 ∧
        ¬InSync (console.step s i).1 (c.step i))) := by
  cases i with
  | byte b =>
    have hsync := inSync_byte h b
    have hout : AllComplete (console.step s (.byte b)).2 := by
      rw [h.step_byte]
      exact .nil
    refine ⟨fun hin => ⟨hout, by rw [hsync, and_iff_right hin]⟩, fun hin => .inr ⟨nofun, hout, ?_⟩⟩
    rw [hsync]
    exact fun hand => hin hand.1
  | scan =>
    by_cases hp : c.phase = .full
    · obtain ⟨hline, hnext⟩ := inSync_scan h hp
      obtain ⟨f, hf⟩ := h.step_scan_full hp
      have hout : AllComplete (console.step s .scan).2 ↔ InSync s c := by
        rw [hf, hline, AllComplete.singleton_iff]
      refine ⟨fun hin => ⟨hout.mpr hin, hnext⟩, fun hin => .inl ⟨⟨rfl, ?_⟩, mt hout.mp hin⟩⟩
      exact fun h0 => h.full_iff.mp h0 hp
    · have hnot : ¬Hands s .scan := fun hands => hands.2 (h.full_iff.mpr hp)
      have hdes : ¬Desync s .scan := by
        rw [h.desync_scan_iff]
        exact fun hand => hp hand.1
      rw [h.step_scan_of_ne_full hp, Collected.step, if_neg hp]
      exact ⟨fun hin => ⟨.nil, iff_of_true hin hdes⟩, fun hin => .inr ⟨hnot, .nil, hin⟩⟩

/-- Out of sync, the next line to be handed over is not complete. -/
theorem allComplete_of_not_inSync (h : Tracks s c) (hin : ¬InSync s c) (is : List Input) :
    AllComplete (console.trace s is) ↔ ∀ p ∈ console.transitions s is, ¬Hands p.1 p.2 := by
  induction is generalizing s c with
  | nil => exact iff_of_true .nil (List.forall_mem_nil _)
  | cons i is ih =>
    rw [Machine.trace_cons, Machine.transitions_cons, AllComplete.append_iff,
      List.forall_mem_cons]
    rcases (inSync_step h i).2 hin with ⟨hhands, hbad⟩ | ⟨hnot, hout, hnext⟩
    · exact iff_of_false (fun hand => hbad hand.1) fun hand => hand.1 hhands
    · rw [ih (tracks_step h i) hnext, and_iff_right hout, and_iff_right hnot]

/-- In sync, the lines are complete up to the first which is handed over after a step that loses it. -/
theorem allComplete_of_inSync (h : Tracks s c) (hin : InSync s c) (is : List Input) :
    AllComplete (console.trace s is) ↔
      (console.transitions s is).Pairwise fun p q => Desync p.1 p.2 → ¬Hands q.1 q.2 := by
  induction is generalizing s c with
  | nil => exact iff_of_true .nil .nil
  | cons i is ih =>
    obtain ⟨hout, hnext⟩ := (inSync_step h i).1 hin
    have htracks := tracks_step h i
    rw [Machine.trace_cons, Machine.transitions_cons, AllComplete.append_iff,
      List.pairwise_cons, and_iff_right hout]
    by_cases hdes : Desync s i
    · rw [allComplete_of_not_inSync htracks (fun hin' => hnext.mp hin' hdes)]
      constructor
      · intro hnone
        refine ⟨fun q hq _ => hnone q hq, ?_⟩
        exact List.pairwise_of_forall_mem_list fun _ _ q hq _ => hnone q hq
      · exact fun hand q hq => hand.1 q hq hdes
    · rw [ih htracks (hnext.mpr hdes), and_iff_right fun _ _ hd => absurd hd hdes]

/-- The bytes among the inputs. -/
def bytesOf : List Input → List UInt8
  | [] => []
  | .byte b :: is => b :: bytesOf is
  | .scan :: is => bytesOf is

/-- A call of `usmart_scan` leaves the stream as it is. -/
theorem step_scan_stream (s : Console) :
    (console.step s .scan).1.seen = s.seen ∧ (console.step s .scan).1.ended = s.ended ∧
      ∀ x ∈ (console.step s .scan).2, x.ended = s.ended := by
  simp only [console, Console.step]
  split
  · exact ⟨rfl, rfl, fun x hx => by rw [List.mem_singleton.mp hx]⟩
  · exact ⟨rfl, rfl, List.forall_mem_nil _⟩

/-- A line which is handed over has ended in the stream. -/
theorem ended_prefix {s : Console} (h : s.ended <+: s.seen) (is : List Input) :
    ∀ x ∈ console.trace s is, x.ended <+: s.seen ++ bytesOf is := by
  induction is generalizing s with
  | nil => exact List.forall_mem_nil _
  | cons i is ih =>
    rw [Machine.trace_cons, List.forall_mem_append]
    cases i with
    | byte b =>
      have hnext : (console.step s (.byte b)).1.ended <+: s.seen ++ [b] := by
        simp only [console, Console.step]
        split
        · exact List.prefix_rfl
        · exact h.trans (List.prefix_append _ _)
      have hrest := ih hnext
      rw [show (console.step s (.byte b)).1.seen = s.seen ++ [b] from rfl, List.append_assoc]
        at hrest
      exact ⟨List.forall_mem_nil _, hrest⟩
    | scan =>
      obtain ⟨hseen, hended, hout⟩ := step_scan_stream s
      have hrest := ih (show (console.step s .scan).1.ended <+: (console.step s .scan).1.seen by
        rwa [hseen, hended])
      rw [hseen] at hrest
      exact ⟨fun x hx => hout x hx ▸ h.trans (List.prefix_append _ _), hrest⟩

/--
**Every line which a run hands over is a line of the stream if and only if no line is handed over after a
step which leaves the receiver in the middle of one.**
-/
theorem linesComplete_iff (rxBuf : Nat → UInt8) (is : List Input) :
    AllComplete (console.trace (Console.start rxBuf) is) ↔
      (console.transitions (Console.start rxBuf) is).Pairwise
        fun p q => Desync p.1 p.2 → ¬Hands q.1 q.2 :=
  allComplete_of_inSync (tracks_nil (shows_nil rxBuf) [] []) rfl is

/-- `ab`, a CR alone, `cd` and CR LF, and then a call of `usmart_scan`. -/
def loneCr : List Input := [97, 98, cr, 99, 100, cr, lf].map Input.byte ++ [.scan]

/-- Of the line only its last character is executed. -/
theorem loneCr_not_complete :
    console.trace (Console.start fun _ => 0) loneCr = [⟨[100], [97, 98, cr, 99, 100, cr, lf]⟩] ∧
      ¬AllComplete (console.trace (Console.start fun _ => 0) loneCr) := by
  have hrun : console.trace (Console.start fun _ => 0) loneCr =
      [⟨[100], [97, 98, cr, 99, 100, cr, lf]⟩] := by decide +kernel
  refine ⟨hrun, fun h => ?_⟩
  rw [hrun, AllComplete.singleton_iff] at h
  have hline : since [97, 98, cr, 99, 100, cr] = [100] ++ [cr] := since_complete_iff.mp h
  revert hline
  decide

end PlcFirmware.Serial
