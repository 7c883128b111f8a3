import Mathlib.Data.List.DropRight
import PlcFirmware.Serial.Framing

/-!
# The callback and `usmart_scan` access by access

`HAL_UART_RxCpltCallback` and `usmart_scan` share `USART_RX_STA` and `USART_RX_BUF`, and neither keeps
the other out. Here each of them makes one access to the two variables at a time, and the accesses come
in any order. What holds all the same rests on bit 15: the callback is over once it has set it, and while
it is set nobody but `usmart_scan` changes anything.

The commands which a line calls read the line. They are taken not to write to the two variables.

* `callback_alone`, `scan_alone` — with nothing in between, the accesses make up the two functions
* `Port.Holds.step` — what each of the two knows stays true while the other goes on
* `port_intact` — the count, the bits, the places written to and the bytes collected
* `port_refines_console` — it is as if each call were made at once
-/

namespace PlcFirmware.Serial

open Infra

/-! ## The two functions -/

/-- The function which makes an access. -/
inductive Party
  | callback
  | scan
  deriving DecidableEq

/-- The callback is called with a byte, and `USART_RX_STA` has this value then; `USART_RX_BUF[i]` is
written; `USART_RX_STA=0` is executed. -/
inductive Access
  | delivered (b : UInt8) (sta : UInt16)
  | stored (p : Party) (i : Nat) (b : UInt8)
  | cleared (p : Party)
  deriving DecidableEq

/-- The access of the callback which is next, with what it has read before. -/
inductive CallbackAt
  | idle
  | testCr (b : UInt8)
  | clear
  | load (bit : UInt16)
  | save (sta : UInt16)
  | index (b : UInt8)
  | store (b : UInt8) (i : Nat)
  | loadCount
  | saveCount (sta : UInt16)
  | testCount
  deriving DecidableEq

/-- An access of the callback. -/
def CallbackAt.step (u : Usart) : CallbackAt → CallbackAt × Usart × List Access
  | .idle => (.idle, u, [])
  | .testCr b =>
    (if u.rxSta &&& 0x4000 ≠ 0 then if b ≠ lf then .clear else .load 0x8000
      else if b = cr then .load 0x4000 else .index b, u, [])
  | .clear => (.idle, { u with rxSta := 0 }, [.cleared .callback])
  -- `|=` reads and writes
  | .load bit => (.save (u.rxSta ||| bit), u, [])
  | .save sta => (.idle, { u with rxSta := sta }, [])
  | .index b => (.store b (u.rxSta &&& 0x3FFF).toNat, u, [])
  | .store b i =>
    (.loadCount, { u with rxBuf := Function.update u.rxBuf i b }, [.stored .callback i b])
  -- and so does `++`
  | .loadCount => (.saveCount (u.rxSta + 1), u, [])
  | .saveCount sta => (.testCount, { u with rxSta := sta }, [])
  | .testCount => (if u.rxSta.toNat > Usmart.usartRecLen - 1 then .clear else .idle, u, [])

/-- The access of `usmart_scan` which is next. At `commands` the line is read and executed. -/
inductive ScanAt
  | idle
  | readLen
  | storeNul (len : Nat)
  | commands
  deriving DecidableEq

/-- An access of `usmart_scan`; from `idle` on it is called anew. -/
def ScanAt.step (u : Usart) : ScanAt → ScanAt × Usart × List Access
  | .idle => (if u.rxSta &&& 0x8000 ≠ 0 then .readLen else .idle, u, [])
  | .readLen => (.storeNul (u.rxSta &&& 0x3FFF).toUInt8.toNat, u, [])
  | .storeNul len =>
    (.commands, { u with rxBuf := Function.update u.rxBuf len 0 }, [.stored .scan len 0])
  | .commands => (.idle, { u with rxSta := 0 }, [.cleared .scan])

/-! ## Interleavings -/

/-- The two variables and how far the two functions are. -/
structure Port where
  usart : Usart
  callback : CallbackAt
  scan : ScanAt

/-- Whose access is next; with `byte` the callback is called. -/
inductive Turn
  | byte (b : UInt8)
  | callback
  | scan

/-- One access. The callback is called anew only when it has returned; with the call it tests bit 15. -/
def Port.step (s : Port) : Turn → Port × List Access
  | .byte b =>
    if s.callback = .idle then
      ({ s with callback := if s.usart.rxSta &&& 0x8000 = 0 then .testCr b else .idle },
        [.delivered b s.usart.rxSta])
    else (s, [])
  | .callback =>
    let r := s.callback.step s.usart
    ({ s with usart := r.2.1, callback := r.1 }, r.2.2)
  | .scan =>
    let r := s.scan.step s.usart
    ({ s with usart := r.2.1, scan := r.1 }, r.2.2)

/-- Interleavings of the callback and `usmart_scan`. -/
def port : Machine Port Turn Access := ⟨Port.step⟩

/-- Nothing has come; the buffer may hold anything. -/
def Port.start (rxBuf : Nat → UInt8) : Port := ⟨⟨0, rxBuf⟩, .idle, .idle⟩

/-- **The accesses of the callback, one after the other, are `HAL_UART_RxCpltCallback`.** -/
theorem callback_alone (s : Port) (h : s.callback = .idle) (b : UInt8) :
    port.run s (.byte b :: List.replicate 7 .callback)
      = { s with usart := halUartRxCpltCallback b s.usart } := by
  obtain ⟨⟨sta, buf⟩, _, scan⟩ := s
  obtain rfl := h
  unfold halUartRxCpltCallback
  by_cases hfull : sta &&& 0x8000 = 0
  · by_cases hcr : sta &&& 0x4000 = 0
    · by_cases hb : b = cr
      · simp [port, Port.step, CallbackAt.step, List.replicate, hfull, hcr, hb]
      · by_cases hlast : Usmart.usartRecLen - 1 < (sta + 1).toNat
        · simp [port, Port.step, CallbackAt.step, List.replicate, hfull, hcr, hb, hlast,
            -UInt16.toNat_add]
        · simp [port, Port.step, CallbackAt.step, List.replicate, hfull, hcr, hb, hlast,
            -UInt16.toNat_add]
    · by_cases hb : b = lf
      · simp [port, Port.step, CallbackAt.step, List.replicate, hfull, hcr, hb]
      · simp [port, Port.step, CallbackAt.step, List.replicate, hfull, hcr, hb]
  · simp [port, Port.step, CallbackAt.step, List.replicate, hfull]

/-- **The accesses of `usmart_scan`, one after the other, are `usmart_scan`.** -/
theorem scan_alone (s : Port) (h : s.scan = .idle) :
    port.run s (List.replicate 4 .scan) = { s with usart := (usmartScan s.usart).1 } := by
  obtain ⟨⟨sta, buf⟩, callback, _⟩ := s
  obtain rfl := h
  unfold usmartScan
  by_cases hfull : sta &&& 0x8000 = 0
  · simp [port, Port.step, ScanAt.step, List.replicate, hfull]
  · simp [port, Port.step, ScanAt.step, List.replicate, hfull]

/-! ## The bytes since the state was cleared -/

/-- The byte comes while a line waits, is the CR which sets bit 14 or the LF which sets bit 15. -/
def LeftOut (b : UInt8) (sta : UInt16) : Prop :=
  sta &&& 0x8000 ≠ 0 ∨ (sta &&& 0x4000 = 0 ∧ b = cr) ∨ (sta &&& 0x4000 ≠ 0 ∧ b = lf)

instance (b : UInt8) (sta : UInt16) : Decidable (LeftOut b sta) :=
  inferInstanceAs (Decidable (_ ∨ _))

/-- The byte which is delivered, if it is not left out. -/
def Access.kept : Access → Option UInt8
  | .delivered b sta => if LeftOut b sta then none else some b
  | .stored _ _ _ => none
  | .cleared _ => none

def Access.clears : Access → Bool
  | .cleared _ => true
  | .stored _ _ _ => false
  | .delivered _ _ => false

/-- The bytes delivered since the last `USART_RX_STA=0`, or the start, which are not left out. -/
def sinceClear (es : List Access) : List UInt8 :=
  (es.rtakeWhile fun e => !e.clears).filterMap Access.kept

/-- What one access makes of them. -/
def note (line : List UInt8) : Access → List UInt8
  | .delivered b sta => if LeftOut b sta then line else line ++ [b]
  | .stored _ _ _ => line
  | .cleared _ => []

theorem sinceClear_append (es : List Access) (e : Access) :
    sinceClear (es ++ [e]) = note (sinceClear es) e := by
  unfold sinceClear
  cases e with
  | delivered b sta =>
    rw [List.rtakeWhile_concat_pos _ _ _ rfl, List.filterMap_append]
    by_cases hout : LeftOut b sta
    · simp [Access.kept, note, hout]
    · simp [Access.kept, note, hout]
  | stored p i b =>
    rw [List.rtakeWhile_concat_pos _ _ _ rfl, List.filterMap_append]
    exact List.append_nil _
  | cleared p =>
    rw [List.rtakeWhile_concat_neg _ _ _ Bool.false_ne_true]
    rfl

/-- The bits tell the bytes which are left out. -/
theorem Shows.leftOut_iff {u : Usart} {c : Collected} (h : Shows u c) (b : UInt8) :
    LeftOut b u.rxSta ↔ c.phase = .full ∨ (c.phase = .text ∧ b = cr) ∨ (c.phase ≠ .text ∧ b = lf) := by
  simp only [LeftOut, ne_eq, h.full_iff, h.text_iff, not_not]

/-! ## What an observer of the accesses knows -/

/-- The call which takes effect with an access: the callback's with its first one, `usmart_scan`'s with its
last one. -/
def Access.call : Access → Option Input
  | .delivered b _ => some (.byte b)
  | .stored _ _ _ => none
  | .cleared .callback => none
  | .cleared .scan => some .scan

/-- The calls, as if each were made at once. -/
def calls (es : List Access) : List Input := es.filterMap Access.call

/-- The bytes since the last clearing, and what a receiver which takes the calls at once has collected. -/
structure Seen where
  line : List UInt8
  collected : Collected

def Seen.start : Seen := ⟨[], ⟨.text, []⟩⟩

def Seen.note (o : Seen) (e : Access) : Seen :=
  ⟨Serial.note o.line e, e.call.elim o.collected o.collected.step⟩

def Seen.ofTrace (es : List Access) : Seen :=
  ⟨sinceClear es, (calls es).foldl Collected.step ⟨.text, []⟩⟩

theorem Seen.ofTrace_append (es : List Access) (e : Access) :
    Seen.ofTrace (es ++ [e]) = (Seen.ofTrace es).note e := by
  unfold Seen.ofTrace Seen.note calls
  rw [sinceClear_append, List.filterMap_append, List.foldl_append]
  cases hcall : e.call with
  | none => simp [hcall]
  | some i => simp [hcall]

theorem Seen.ofTrace_eq_foldl (es : List Access) : Seen.ofTrace es = es.foldl Seen.note .start := by
  induction es using List.reverseRecOn with
  | nil => rfl
  | append_singleton es e ih =>
    rw [Seen.ofTrace_append, ih, List.foldl_append]
    rfl

/-- A byte has been added to the line; if it is the 200th, the line is given up. -/
def Seen.counted (line : List UInt8) : Seen :=
  ⟨line, if line.length = 200 then ⟨.text, []⟩ else ⟨.text, line⟩⟩

/-! ## What each function knows -/

variable {u : Usart} {o : Seen}

/-- The write of a `|=` is all that is missing. -/
def Saves (u : Usart) (o : Seen) (sta : UInt16) : Prop :=
  ∃ p, p ≠ .full ∧ Shows u ⟨p, o.line⟩ ∧ Shows { u with rxSta := sta } o.collected ∧
    o.line = o.collected.line

/-- What is known in front of an access of the callback. From its first access on bit 15 is clear, until
it sets it. -/
def CallbackAt.Holds (u : Usart) (o : Seen) : CallbackAt → Prop
  | .idle => Shows u o.collected ∧ o.line = o.collected.line
  | .testCr b => ∃ c, Shows u c ∧ c.phase ≠ .full ∧
      o = ⟨note c.line (.delivered b u.rxSta), c.byte b⟩
  | .clear => u.rxSta &&& 0x8000 = 0 ∧ o.collected = ⟨.text, []⟩
  | .load bit => Saves u o (u.rxSta ||| bit)
  | .save sta => Saves u o sta
  | .index b => ∃ l, Shows u ⟨.text, l⟩ ∧ o = .counted (l ++ [b])
  | .store b i => ∃ l, Shows u ⟨.text, l⟩ ∧ o = .counted (l ++ [b]) ∧ i = l.length
  | .loadCount => ∃ l b, Shows u ⟨.text, l⟩ ∧ o = .counted (l ++ [b]) ∧
      HoldsAt u.rxBuf 0 (l ++ [b])
  | .saveCount sta => ∃ l b, Shows u ⟨.text, l⟩ ∧ o = .counted (l ++ [b]) ∧
      HoldsAt u.rxBuf 0 (l ++ [b]) ∧ sta = UInt16.ofNat (l ++ [b]).length
  | .testCount => ∃ l, u.rxSta = UInt16.ofNat l.length ∧ l.length ≤ 200 ∧ HoldsAt u.rxBuf 0 l ∧
      o = .counted l

/-- What is known in front of an access of `usmart_scan`. -/
def ScanAt.Holds (u : Usart) (o : Seen) : ScanAt → Prop
  | .idle => True
  | .readLen => u.rxSta &&& 0x8000 ≠ 0
  | .storeNul len => u.rxSta &&& 0x8000 ≠ 0 ∧ len = o.line.length
  | .commands => u.rxSta &&& 0x8000 ≠ 0 ∧ u.rxBuf o.line.length = 0

structure Port.Holds (s : Port) (o : Seen) : Prop where
  callback : s.callback.Holds s.usart o
  scan : s.scan.Holds s.usart o

theorem holds_start (rxBuf : Nat → UInt8) : (Port.start rxBuf).Holds .start where
  callback := ⟨shows_nil rxBuf, rfl⟩
  scan := trivial

/-- But for the moment when the count is 200, the two variables hold a line at each access. -/
theorem CallbackAt.Holds.shows {r : CallbackAt} (h : r.Holds u o) :
    r = .testCount ∨ r = .clear ∨ ∃ c, Shows u c ∧ (r ≠ .idle → c.phase ≠ .full) := by
  cases r with
  | idle => exact .inr (.inr ⟨_, h.1, fun hne => absurd rfl hne⟩)
  | testCr b =>
    obtain ⟨c, hshows, hp, -⟩ := h
    exact .inr (.inr ⟨c, hshows, fun _ => hp⟩)
  | clear => exact .inr (.inl rfl)
  | load bit =>
    obtain ⟨p, hp, hshows, -⟩ := h
    exact .inr (.inr ⟨_, hshows, fun _ => hp⟩)
  | save sta =>
    obtain ⟨p, hp, hshows, -⟩ := h
    exact .inr (.inr ⟨_, hshows, fun _ => hp⟩)
  | index b =>
    obtain ⟨l, hshows, -⟩ := h
    exact .inr (.inr ⟨_, hshows, fun _ => Phase.text_ne_full⟩)
  | store b i =>
    obtain ⟨l, hshows, -⟩ := h
    exact .inr (.inr ⟨_, hshows, fun _ => Phase.text_ne_full⟩)
  | loadCount =>
    obtain ⟨l, b, hshows, -⟩ := h
    exact .inr (.inr ⟨_, hshows, fun _ => Phase.text_ne_full⟩)
  | saveCount sta =>
    obtain ⟨l, b, hshows, -⟩ := h
    exact .inr (.inr ⟨_, hshows, fun _ => Phase.text_ne_full⟩)
  | testCount => exact .inl rfl

/-- **While the callback is inside, bit 15 is clear.** -/
theorem CallbackAt.Holds.idle_of_full {r : CallbackAt} (h : r.Holds u o)
    (hfull : u.rxSta &&& 0x8000 ≠ 0) : r = .idle := by
  rcases h.shows with rfl | rfl | ⟨c, hshows, hp⟩
  · obtain ⟨l, hsta, hlen, -⟩ := h
    rw [hsta] at hfull
    exact absurd (count_reads ⟨l.length, by omega⟩).2 hfull
  · exact absurd h.1 hfull
  · by_contra hne
    exact hfull (hshows.full_iff.mpr (hp hne))

/-- **While bit 15 is clear, `usmart_scan` is not inside.** -/
theorem ScanAt.Holds.idle_of_clear {r : ScanAt} (h : r.Holds u o)
    (hclear : u.rxSta &&& 0x8000 = 0) : r = .idle := by
  cases r with
  | idle => rfl
  | readLen => exact absurd hclear h
  | storeNul len => exact absurd hclear h.1
  | commands => exact absurd hclear h.1

/-! ## One access of each -/

/-- Bit 14 and the byte tell what becomes of it. -/
theorem holds_testCr {c : Collected} (hshows : Shows u c) (hp : c.phase ≠ .full) (b : UInt8) :
    (CallbackAt.step u (.testCr b)).1.Holds u ⟨note c.line (.delivered b u.rxSta), c.byte b⟩ := by
  have htext := hshows.text_iff
  have hout := hshows.leftOut_iff b
  obtain ⟨phase, line⟩ := c
  simp only [CallbackAt.step, Collected.byte, note]
  cases phase with
  | full => exact absurd rfl hp
  | cr =>
    rw [if_pos (mt htext.mp Phase.cr_ne_text)]
    by_cases hb : b = lf
    · rw [if_neg (not_not.mpr hb), if_pos (hout.mpr (.inr (.inr ⟨Phase.cr_ne_text, hb⟩)))]
      simp only [if_pos hb]
      exact ⟨.cr, Phase.cr_ne_full, hshows, hshows.done, rfl⟩
    · simp only [if_pos hb, if_neg hb]
      exact ⟨hshows.full_iff.mpr hp, rfl⟩
  | text =>
    rw [if_neg (not_not.mpr (htext.mpr rfl))]
    by_cases hb : b = cr
    · rw [if_pos hb, if_pos (hout.mpr (.inr (.inl ⟨rfl, hb⟩)))]
      simp only [if_pos hb]
      exact ⟨.text, Phase.text_ne_full, hshows, hshows.seen, rfl⟩
    · have hin : ¬LeftOut b u.rxSta := by
        rw [hout]
        simp [hb]
      rw [if_neg hb, if_neg hin]
      simp only [if_neg hb]
      refine ⟨line, hshows, ?_⟩
      rw [Seen.counted, List.length_append, List.length_singleton]
      exact congrArg (Seen.mk _) (if_congr (by omega) rfl rfl)

/-- The 200th byte is one too many. -/
theorem holds_testCount {f : Nat → UInt8} {l : List UInt8} (hlen : l.length ≤ 200)
    (hbuf : HoldsAt f 0 l) :
    (CallbackAt.step ⟨UInt16.ofNat l.length, f⟩ .testCount).1.Holds ⟨UInt16.ofNat l.length, f⟩
      (.counted l) := by
  obtain ⟨hcount, hclear⟩ := count_reads ⟨l.length, by omega⟩
  simp only at hcount hclear
  simp only [CallbackAt.step, hcount, Usmart.usartRecLen, Seen.counted]
  by_cases hlast : l.length = 200
  · have hover : l.length > 200 - 1 := by omega
    rw [if_pos hover, if_pos hlast]
    exact ⟨hclear, rfl⟩
  · have hover : ¬l.length > 200 - 1 := by omega
    rw [if_neg hover, if_neg hlast]
    exact ⟨shows_counted hbuf (by omega), rfl⟩

/-- **An access of the callback.** -/
theorem CallbackAt.Holds.step {r : CallbackAt} (h : r.Holds u o) :
    (r.step u).1.Holds (r.step u).2.1 ((r.step u).2.2.foldl Seen.note o) := by
  cases r with
  | idle => exact h
  | testCr b =>
    obtain ⟨c, hshows, hp, rfl⟩ := h
    exact holds_testCr hshows hp b
  | clear =>
    obtain ⟨-, hcollected⟩ := h
    exact ⟨hcollected ▸ shows_nil u.rxBuf, congrArg Collected.line hcollected.symm⟩
  | load bit => exact h
  | save sta =>
    obtain ⟨p, -, -, hshows, hline⟩ := h
    exact ⟨hshows, hline⟩
  | index b =>
    obtain ⟨l, hshows, ho⟩ := h
    exact ⟨l, hshows, ho, hshows.length_eq⟩
  | store b i =>
    obtain ⟨l, hshows, rfl, rfl⟩ := h
    exact ⟨l, b, hshows.update (Nat.le_refl _) b, rfl, HoldsAt.snoc hshows.buf b⟩
  | loadCount =>
    obtain ⟨l, b, hshows, rfl, hbuf⟩ := h
    exact ⟨l, b, hshows, rfl, hbuf, hshows.succ_eq b⟩
  | saveCount sta =>
    obtain ⟨l, b, hshows, rfl, hbuf, hsta⟩ := h
    have hlen : (l ++ [b]).length ≤ 200 := by
      rw [List.length_append]
      exact hshows.short
    exact ⟨l ++ [b], hsta, hlen, hbuf, rfl⟩
  | testCount =>
    obtain ⟨l, hsta, hlen, hbuf, rfl⟩ := h
    obtain ⟨sta, f⟩ := u
    obtain rfl := hsta
    exact holds_testCount hlen hbuf

/-- A line waits. -/
def Waits (u : Usart) (o : Seen) : Prop :=
  Shows u ⟨.full, o.line⟩ ∧ o.collected = ⟨.full, o.line⟩

theorem Waits.note_delivered (h : Waits u o) (hfull : u.rxSta &&& 0x8000 ≠ 0) (b : UInt8) :
    o.note (.delivered b u.rxSta) = o := by
  rw [Seen.note, note, if_pos (.inl hfull), h.2]
  exact congrArg (Seen.mk o.line) h.2.symm

/-- **An access of `usmart_scan`**, which is inside only when a line waits. -/
theorem ScanAt.Holds.step {r : ScanAt} (h : r.Holds u o)
    (hwaits : u.rxSta &&& 0x8000 ≠ 0 → Waits u o) :
    (r.step u).1.Holds (r.step u).2.1 ((r.step u).2.2.foldl Seen.note o) ∧
      (u.rxSta &&& 0x8000 ≠ 0 →
        CallbackAt.idle.Holds (r.step u).2.1 ((r.step u).2.2.foldl Seen.note o)) := by
  have hidle : u.rxSta &&& 0x8000 ≠ 0 → CallbackAt.idle.Holds u o := by
    intro hfull
    obtain ⟨hshows, ho⟩ := hwaits hfull
    exact ⟨ho ▸ hshows, congrArg Collected.line ho.symm⟩
  cases r with
  | idle =>
    refine ⟨?_, hidle⟩
    by_cases hfull : u.rxSta &&& 0x8000 ≠ 0
    · simp only [ScanAt.step, if_pos hfull]
      exact hfull
    · simp only [ScanAt.step, if_neg hfull]
      trivial
  | readLen => exact ⟨⟨h, (hwaits h).1.len_eq⟩, hidle⟩
  | storeNul len =>
    obtain ⟨hfull, rfl⟩ := h
    obtain ⟨hshows, ho⟩ := hwaits hfull
    refine ⟨⟨hfull, Function.update_self _ _ _⟩, fun _ => ⟨?_, congrArg Collected.line ho.symm⟩⟩
    exact ho ▸ hshows.update (Nat.le_refl _) 0
  | commands =>
    obtain ⟨hshows, ho⟩ := hwaits h.1
    refine ⟨trivial, fun _ => ?_⟩
    have hnote : o.note (.cleared .scan) = .start := by
      unfold Seen.note
      rw [ho]
      rfl
    simp only [ScanAt.step, List.foldl_cons, List.foldl_nil, hnote]
    exact ⟨shows_nil u.rxBuf, rfl⟩

namespace Port.Holds

variable {s : Port}

/-- With bit 15 set, a line waits and the callback is not inside. -/
theorem full (h : s.Holds o) (hfull : s.usart.rxSta &&& 0x8000 ≠ 0) :
    s.callback = .idle ∧ Waits s.usart o := by
  have hidle := h.callback.idle_of_full hfull
  have hcallback := h.callback
  rw [hidle] at hcallback
  obtain ⟨hshows, hline⟩ := hcallback
  have hp : o.collected.phase = .full := by
    by_contra hne
    exact hfull (hshows.full_iff.mpr hne)
  have ho : o.collected = ⟨.full, o.line⟩ := by rw [← hp, hline]
  exact ⟨hidle, ho ▸ hshows, ho⟩

/-- The callback is called. -/
theorem step_byte (h : s.Holds o) (b : UInt8) :
    (port.step s (.byte b)).1.Holds ((port.step s (.byte b)).2.foldl Seen.note o) := by
  by_cases hidle : s.callback = .idle
  · simp only [port, Port.step, if_pos hidle, List.foldl_cons, List.foldl_nil]
    have hcallback := h.callback
    rw [hidle] at hcallback
    obtain ⟨hshows, hline⟩ := hcallback
    by_cases hfull : s.usart.rxSta &&& 0x8000 = 0
    · rw [if_pos hfull]
      refine ⟨⟨o.collected, hshows, hshows.full_iff.mp hfull, ?_⟩, ?_⟩
      · rw [Seen.note, hline]
        rfl
      · rw [h.scan.idle_of_clear hfull]
        trivial
    · -- the byte is dropped
      rw [if_neg hfull, (h.full hfull).2.note_delivered hfull]
      exact ⟨⟨hshows, hline⟩, h.scan⟩
  · simp only [port, Port.step, if_neg hidle]
    exact h

theorem step_callback (h : s.Holds o) :
    (port.step s .callback).1.Holds ((port.step s .callback).2.foldl Seen.note o) := by
  refine ⟨h.callback.step, ?_⟩
  by_cases hfull : s.usart.rxSta &&& 0x8000 = 0
  · change s.scan.Holds _ _
    rw [h.scan.idle_of_clear hfull]
    trivial
  · obtain ⟨hidle, -⟩ := h.full hfull
    have hscan := h.scan
    simp only [port, Port.step, hidle]
    exact hscan

theorem step_scan (h : s.Holds o) :
    (port.step s .scan).1.Holds ((port.step s .scan).2.foldl Seen.note o) := by
  obtain ⟨hscan, hcallback⟩ := h.scan.step fun hfull => (h.full hfull).2
  refine ⟨?_, hscan⟩
  by_cases hfull : s.usart.rxSta &&& 0x8000 = 0
  · -- it tests the bit and returns
    have hidle := h.scan.idle_of_clear hfull
    have hkeep := h.callback
    simp only [port, Port.step, hidle, ScanAt.step]
    exact hkeep
  · change s.callback.Holds _ _
    rw [(h.full hfull).1]
    exact hcallback hfull

/-- **What the two know is kept by every access.** -/
theorem step (h : s.Holds o) (t : Turn) :
    (port.step s t).1.Holds ((port.step s t).2.foldl Seen.note o) := by
  cases t with
  | byte b => exact h.step_byte b
  | callback => exact h.step_callback
  | scan => exact h.step_scan

end Port.Holds

/-- **And so by every run.** -/
theorem holds_run (rxBuf : Nat → UInt8) (ts : List Turn) :
    (port.run (Port.start rxBuf) ts).Holds (.ofTrace (port.trace (Port.start rxBuf) ts)) := by
  rw [Seen.ofTrace_eq_foldl]
  exact port.run_observed Seen.note (P := Port.Holds) (fun _ _ t h => h.step t) (holds_start rxBuf) ts

/-! ## The places written to -/

theorem CallbackAt.Holds.stored_lt {r : CallbackAt} (h : r.Holds u o) {p : Party} {i : Nat}
    {b : UInt8} (hmem : .stored p i b ∈ (r.step u).2.2) : i < Usmart.usartRecLen := by
  cases r with
  | store b' i' =>
    obtain ⟨l, hshows, -, rfl⟩ := h
    cases List.mem_singleton.mp hmem
    exact hshows.short
  | clear => cases List.mem_singleton.mp hmem
  | _ => cases hmem

theorem ScanAt.Holds.stored_lt {r : ScanAt} (h : r.Holds u o)
    (hwaits : u.rxSta &&& 0x8000 ≠ 0 → Waits u o) {p : Party} {i : Nat} {b : UInt8}
    (hmem : .stored p i b ∈ (r.step u).2.2) : i < Usmart.usartRecLen := by
  cases r with
  | storeNul len =>
    obtain ⟨hfull, rfl⟩ := h
    cases List.mem_singleton.mp hmem
    exact (hwaits hfull).1.short
  | commands => cases List.mem_singleton.mp hmem
  | _ => cases hmem

/-- **What is written to `USART_RX_BUF` lies inside it.** -/
theorem Port.Holds.stored_lt {s : Port} (h : s.Holds o) {t : Turn} {p : Party} {i : Nat}
    {b : UInt8} (hmem : .stored p i b ∈ (port.step s t).2) : i < Usmart.usartRecLen := by
  cases t with
  | byte b' =>
    simp only [port, Port.step] at hmem
    split at hmem
    · cases List.mem_singleton.mp hmem
    · cases hmem
  | callback => exact h.callback.stored_lt hmem
  | scan => exact h.scan.stored_lt (fun hfull => (h.full hfull).2) hmem

/-! ## A line which waits -/

/-- **While a line waits, only the last access of `usmart_scan` changes it.** -/
theorem Port.Holds.step_full {s : Port} (h : s.Holds o) (hfull : s.usart.rxSta &&& 0x8000 ≠ 0)
    {t : Turn} (hkeep : .cleared .scan ∉ (port.step s t).2) :
    (port.step s t).1.usart.rxSta = s.usart.rxSta ∧ (port.step s t).1.Holds o := by
  obtain ⟨hidle, hwaits⟩ := h.full hfull
  have hnext := h.step t
  cases t with
  | byte b =>
    have hstep : port.step s (.byte b) = _ := if_pos hidle
    rw [hstep] at hnext ⊢
    rw [List.foldl_cons, List.foldl_nil, hwaits.note_delivered hfull] at hnext
    exact ⟨rfl, hnext⟩
  | callback =>
    simp only [port, Port.step, hidle] at hnext ⊢
    exact ⟨rfl, hnext⟩
  | scan =>
    simp only [port, Port.step] at hkeep hnext ⊢
    cases hscan : s.scan with
    | commands =>
      rw [hscan] at hkeep
      exact absurd (List.mem_singleton_self _) hkeep
    | _ =>
      rw [hscan] at hnext
      exact ⟨rfl, hnext⟩

theorem Port.Holds.run_full {s : Port} (h : s.Holds o) (hfull : s.usart.rxSta &&& 0x8000 ≠ 0)
    {ts : List Turn} (hkeep : .cleared .scan ∉ port.trace s ts) :
    (port.run s ts).usart.rxSta = s.usart.rxSta ∧ (port.run s ts).Holds o := by
  induction ts generalizing s with
  | nil => exact ⟨rfl, h⟩
  | cons t ts ih =>
    rw [Machine.trace_cons, List.mem_append, not_or] at hkeep
    obtain ⟨hsta, hnext⟩ := h.step_full hfull hkeep.1
    obtain ⟨hrun, hend⟩ := ih hnext (hsta ▸ hfull) hkeep.2
    exact ⟨hrun.trans hsta, hend⟩

/-! ## What holds of every interleaving -/

/-- The count field of `USART_RX_STA`. -/
def Usart.count (u : Usart) : Nat := (u.rxSta &&& 0x3FFF).toNat

/--
What the accesses `es` have led to. The count is 200 for a moment inside the callback, between
`USART_RX_STA++` and the `USART_RX_STA=0` which follows, where bit 15 is clear and `usmart_scan` leaves at
once; a byte is collected when the callback is over.
-/
structure Port.Intact (s : Port) (es : List Access) : Prop where
  count : s.callback ≠ .testCount → s.callback ≠ .clear → s.usart.count ≤ 199
  bits : s.usart.rxSta &&& 0x8000 ≠ 0 → s.usart.rxSta &&& 0x4000 ≠ 0
  stored : ∀ p i b, .stored p i b ∈ es → i < Usmart.usartRecLen
  collected : s.callback = .idle → (List.range s.usart.count).map s.usart.rxBuf = sinceClear es
  waits : s.usart.rxSta &&& 0x8000 ≠ 0 → ∀ ts, .cleared .scan ∉ port.trace s ts →
    (port.run s ts).usart.rxSta = s.usart.rxSta ∧
      ∀ i < s.usart.count, (port.run s ts).usart.rxBuf i = s.usart.rxBuf i

theorem Shows.count_eq {c : Collected} (h : Shows u c) : u.count = c.line.length := h.length_eq

theorem Shows.map_range {c : Collected} (h : Shows u c) :
    (List.range u.count).map u.rxBuf = c.line := by
  rw [h.count_eq]
  refine List.ext_getElem (by simp) fun i h1 h2 => ?_
  have hat := h.buf i h2
  rw [Nat.zero_add] at hat
  rw [List.getElem_map, List.getElem_range, hat]

/-- Two ports which show the same do not differ in what has been collected. -/
theorem Shows.agree {u u' : Usart} {c : Collected} (h : Shows u c) (h' : Shows u' c) :
    u'.rxSta = u.rxSta ∧ ∀ i < u.count, u'.rxBuf i = u.rxBuf i := by
  refine ⟨h'.sta.trans h.sta.symm, fun i hi => ?_⟩
  rw [h.count_eq] at hi
  have hat := h.buf i hi
  have hat' := h'.buf i hi
  rw [Nat.zero_add] at hat hat'
  rw [hat, hat']

/-- **Every run of the callback and `usmart_scan`, in whatever order their accesses come.** -/
theorem port_intact (rxBuf : Nat → UInt8) (ts : List Turn) :
    (port.run (Port.start rxBuf) ts).Intact (port.trace (Port.start rxBuf) ts) := by
  have h := holds_run rxBuf ts
  refine ⟨fun hcount hclear => ?_, fun hfull => ?_, fun p i b hmem => ?_, fun hidle => ?_,
    fun hfull ts' hkeep => ?_⟩
  · rcases h.callback.shows with heq | heq | ⟨c, hshows, -⟩
    · exact absurd heq hcount
    · exact absurd heq hclear
    · rw [hshows.count_eq]
      exact Nat.le_of_lt_succ hshows.short
  · exact mt (h.full hfull).2.1.text_iff.mp Phase.full_ne_text
  · obtain ⟨q, hq, hstep⟩ := port.mem_trace_iff.mp hmem
    obtain ⟨o, ho⟩ := (port.run_invariant' (fun s => ∃ o, s.Holds o)
      (fun _ t ⟨_, h⟩ => ⟨_, h.step t⟩) ⟨.start, holds_start rxBuf⟩ ts).1 q hq
    exact ho.stored_lt hstep
  · have hcallback := h.callback
    rw [hidle] at hcallback
    exact hcallback.1.map_range.trans hcallback.2.symm
  · obtain ⟨hsta, hend⟩ := h.run_full hfull hkeep
    exact (h.full hfull).2.1.agree (hend.full (hsta ▸ hfull)).2.1

/-! ## The calls at once -/

theorem tracks_run {s : Console} {c : Collected} (h : Tracks s c) (is : List Input) :
    Tracks (console.run s is) (is.foldl Collected.step c) := by
  induction is generalizing s c with
  | nil => exact h
  | cons i is ih => exact ih (tracks_step h i)

theorem tracks_calls (rxBuf : Nat → UInt8) (es : List Access) :
    Tracks (console.run (Console.start rxBuf) (calls es)) (Seen.ofTrace es).collected :=
  tracks_run (tracks_nil (shows_nil rxBuf) [] []) (calls es)

/--
**When the callback is over, `USART_RX_STA` and the line are as if each call had been made at once**, the
callback's at its first access and `usmart_scan`'s at its last.
-/
theorem port_refines_console (rxBuf : Nat → UInt8) (ts : List Turn)
    (hidle : (port.run (Port.start rxBuf) ts).callback = .idle) :
    ∃ c, Shows (port.run (Port.start rxBuf) ts).usart c ∧
      Tracks (console.run (Console.start rxBuf) (calls (port.trace (Port.start rxBuf) ts))) c := by
  have hcallback := (holds_run rxBuf ts).callback
  rw [hidle] at hcallback
  exact ⟨_, hcallback.1, tracks_calls rxBuf _⟩

/-- **The commands find the line which a call of `usmart_scan` at once hands over.** -/
theorem commands_handed (rxBuf : Nat → UInt8) (ts : List Turn)
    (hscan : (port.run (Port.start rxBuf) ts).scan = .commands) :
    HoldsAt (port.run (Port.start rxBuf) ts).usart.rxBuf 0
        (sinceClear (port.trace (Port.start rxBuf) ts) ++ [0]) ∧
      ∃ ended, (console.step (console.run (Console.start rxBuf)
        (calls (port.trace (Port.start rxBuf) ts))) .scan).2
          = [⟨sinceClear (port.trace (Port.start rxBuf) ts), ended⟩] := by
  have h := holds_run rxBuf ts
  have hnul := h.scan
  rw [hscan] at hnul
  obtain ⟨-, hshows, ho⟩ := h.full hnul.1
  obtain ⟨f, hf⟩ := (tracks_calls rxBuf (port.trace (Port.start rxBuf) ts)).step_scan_full
    (congrArg Collected.phase ho)
  rw [ho] at hf
  refine ⟨hshows.buf.append fun j hj => ?_, _, congrArg Prod.snd hf⟩
  obtain rfl : j = 0 := by simpa using hj
  rw [Nat.zero_add]
  exact hnul.2

end PlcFirmware.Serial
