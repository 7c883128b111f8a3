import PlcFirmware.Infra.Cells
import PlcFirmware.Usmart.Scan

/-!
# Receiving a line

`HAL_UART_RxCpltCallback` collects the bytes of the serial port in `USART_RX_BUF`, one at a time, until a
CR and an LF have come, and `usmart_scan` takes the line out. All that is known of the line is in
`USART_RX_STA`: its length in the low bits, bit 14 when the CR has come, bit 15 when the LF has.

`Collected` is the receiver without the bits: what it has collected, and which of the two has come.

* `shows_byte` — the callback does on the two variables what `Collected.byte` does
* `usmartScan_full` — `usmart_scan` hands over what has been collected
-/

namespace PlcFirmware.Serial

open Infra

def cr : UInt8 := 0x0D

def lf : UInt8 := 0x0A

/-- `USART_RX_STA` and `USART_RX_BUF` -/
structure Usart where
  rxSta : UInt16
  rxBuf : Nat → UInt8

/-- `HAL_UART_RxCpltCallback` for `USART1`, with the byte in `aRxBuffer[0]`. -/
def halUartRxCpltCallback (b : UInt8) (u : Usart) : Usart :=
  if u.rxSta &&& 0x8000 = 0 then
    if u.rxSta &&& 0x4000 ≠ 0 then
      if b ≠ lf then { u with rxSta := 0 } else { u with rxSta := u.rxSta ||| 0x8000 }
    else if b = cr then { u with rxSta := u.rxSta ||| 0x4000 }
    else
      let u : Usart :=
        { rxSta := u.rxSta + 1
          rxBuf := Function.update u.rxBuf (u.rxSta &&& 0x3FFF).toNat b }
      if u.rxSta.toNat > Usmart.usartRecLen - 1 then { u with rxSta := 0 } else u
  else u

/-- `usmart_scan`, with the bytes which it hands to `usmart_cmd_rec`, in front of the `NUL`. -/
def usmartScan (u : Usart) : Usart × Option (List UInt8) :=
  if u.rxSta &&& 0x8000 ≠ 0 then
    let len := (u.rxSta &&& 0x3FFF).toUInt8.toNat
    let rxBuf := Function.update u.rxBuf len 0
    (⟨0, rxBuf⟩, some ((List.range len).map rxBuf))
  else (u, none)

/-! ## Without the bits -/

/-- What has come of the end of the line: nothing, the CR, or both. -/
inductive Phase
  | text
  | cr
  | full
  deriving DecidableEq

theorem Phase.text_ne_full : Phase.text ≠ .full := by decide

theorem Phase.cr_ne_full : Phase.cr ≠ .full := by decide

theorem Phase.cr_ne_text : Phase.cr ≠ .text := by decide

theorem Phase.full_ne_text : Phase.full ≠ .text := by decide

/-- What the receiver has collected. -/
structure Collected where
  phase : Phase
  line : List UInt8

/-- One byte. -/
def Collected.byte (c : Collected) (b : UInt8) : Collected :=
  match c.phase with
  | .full => c
  | .cr => if b = lf then ⟨.full, c.line⟩ else ⟨.text, []⟩
  | .text =>
    if b = cr then ⟨.cr, c.line⟩
    else if c.line.length = 199 then ⟨.text, []⟩
    else ⟨.text, c.line ++ [b]⟩

/-- The bits 14 and 15. -/
def Phase.bits : Phase → UInt16
  | .text => 0
  | .cr => 0x4000
  | .full => 0xC000

/-- `USART_RX_STA` and `USART_RX_BUF` hold what has been collected. -/
structure Shows (u : Usart) (c : Collected) : Prop where
  sta : u.rxSta = UInt16.ofNat c.line.length ||| c.phase.bits
  buf : HoldsAt u.rxBuf 0 c.line
  short : c.line.length < 200

/-- What the functions read from `USART_RX_STA`. -/
theorem sta_reads (n : Fin 200) (p : Phase) :
    ((UInt16.ofNat n ||| p.bits) &&& 0x3FFF).toNat = n ∧
      ((UInt16.ofNat n ||| p.bits) &&& 0x3FFF).toUInt8.toNat = n ∧
      ((UInt16.ofNat n ||| p.bits) &&& 0x8000 = 0 ↔ p ≠ .full) ∧
      ((UInt16.ofNat n ||| p.bits) &&& 0x4000 = 0 ↔ p = .text) := by
  revert n
  cases p <;> decide +kernel

/-- What the callback makes of it. -/
theorem sta_writes (n : Fin 200) :
    (UInt16.ofNat n ||| Phase.text.bits) ||| 0x4000 = UInt16.ofNat n ||| Phase.cr.bits ∧
      (UInt16.ofNat n ||| Phase.cr.bits) ||| 0x8000 = UInt16.ofNat n ||| Phase.full.bits ∧
      (UInt16.ofNat n ||| Phase.text.bits) + 1 = UInt16.ofNat (n + 1) ||| Phase.text.bits := by
  revert n
  decide +kernel

theorem shows_nil (f : Nat → UInt8) : Shows ⟨0, f⟩ ⟨.text, []⟩ where
  sta := rfl
  buf := fun _ hj => absurd hj (Nat.not_lt_zero _)
  short := Nat.zero_lt_succ _

variable {u : Usart} {c : Collected} {line : List UInt8}

theorem HoldsAt.snoc {f : Nat → UInt8} {vs : List UInt8} (h : HoldsAt f 0 vs) (b : UInt8) :
    HoldsAt (Function.update f vs.length b) 0 (vs ++ [b]) := by
  refine HoldsAt.append (h.congr fun i _ hi => Function.update_of_ne (by omega) _ _) fun j hj => ?_
  obtain rfl : j = 0 := by simpa using hj
  simp

/-! ## One access -/

namespace Shows

theorem full_iff (h : Shows u c) : u.rxSta &&& 0x8000 = 0 ↔ c.phase ≠ .full := by
  rw [h.sta]
  exact (sta_reads ⟨c.line.length, h.short⟩ c.phase).2.2.1

theorem text_iff (h : Shows u c) : u.rxSta &&& 0x4000 = 0 ↔ c.phase = .text := by
  rw [h.sta]
  exact (sta_reads ⟨c.line.length, h.short⟩ c.phase).2.2.2

theorem length_eq (h : Shows u c) : (u.rxSta &&& 0x3FFF).toNat = c.line.length := by
  rw [h.sta]
  exact (sta_reads ⟨c.line.length, h.short⟩ c.phase).1

/-- The length which `usmart_scan` takes from `USART_RX_STA`, a `u8`. -/
theorem len_eq (h : Shows u c) : (u.rxSta &&& 0x3FFF).toUInt8.toNat = c.line.length := by
  rw [h.sta]
  exact (sta_reads ⟨c.line.length, h.short⟩ c.phase).2.1

/-- The CR sets bit 14. -/
theorem seen (h : Shows u ⟨.text, line⟩) :
    Shows { u with rxSta := u.rxSta ||| 0x4000 } ⟨.cr, line⟩ where
  sta := (congrArg (· ||| 0x4000) h.sta).trans (sta_writes ⟨line.length, h.short⟩).1
  buf := h.buf
  short := h.short

/-- The LF sets bit 15. -/
theorem done (h : Shows u ⟨.cr, line⟩) :
    Shows { u with rxSta := u.rxSta ||| 0x8000 } ⟨.full, line⟩ where
  sta := (congrArg (· ||| 0x8000) h.sta).trans (sta_writes ⟨line.length, h.short⟩).2.1
  buf := h.buf
  short := h.short

/-- One more byte is counted. -/
theorem succ_eq (h : Shows u ⟨.text, line⟩) (b : UInt8) :
    u.rxSta + 1 = UInt16.ofNat (line ++ [b]).length := by
  have hsucc := (sta_writes ⟨line.length, h.short⟩).2.2
  rw [h.sta, hsucc, List.length_append, List.length_singleton]
  exact UInt16.or_zero

/-- What lies behind the line does not matter. -/
theorem update (h : Shows u c) {i : Nat} (hi : c.line.length ≤ i) (b : UInt8) :
    Shows { u with rxBuf := Function.update u.rxBuf i b } c where
  sta := h.sta
  buf := h.buf.congr fun j _ hj => Function.update_of_ne (by omega) _ _
  short := h.short

end Shows

/-- The count after a byte has been stored, up to 200. -/
theorem count_reads (n : Fin 201) :
    (UInt16.ofNat n).toNat = n ∧ UInt16.ofNat n &&& 0x8000 = 0 := by
  revert n
  decide +kernel

/-- A byte has been stored and counted. -/
theorem shows_counted {f : Nat → UInt8} (hbuf : HoldsAt f 0 line) (hshort : line.length < 200) :
    Shows ⟨UInt16.ofNat line.length, f⟩ ⟨.text, line⟩ where
  sta := UInt16.or_zero.symm
  buf := hbuf
  short := hshort

/-! ## The two functions -/

/-- **The callback collects a byte.** -/
theorem shows_byte (h : Shows u c) (b : UInt8) :
    Shows (halUartRxCpltCallback b u) (c.byte b) := by
  have hfull := h.full_iff
  have hcr := h.text_iff
  obtain ⟨phase, line⟩ := c
  unfold halUartRxCpltCallback
  cases phase with
  | full =>
    -- nothing is collected while a line waits
    rw [if_neg (mt hfull.mp (not_not.mpr rfl))]
    exact h
  | cr =>
    rw [if_pos (hfull.mpr Phase.cr_ne_full), if_pos (mt hcr.mp Phase.cr_ne_text)]
    simp only [Collected.byte]
    by_cases hb : b = lf
    · rw [if_neg (not_not.mpr hb), if_pos hb]
      exact h.done
    · rw [if_pos hb, if_neg hb]
      exact shows_nil _
  | text =>
    rw [if_pos (hfull.mpr Phase.text_ne_full), if_neg (not_not.mpr (hcr.mpr rfl))]
    simp only [Collected.byte]
    by_cases hb : b = cr
    · rw [if_pos hb, if_pos hb]
      exact h.seen
    · have hshort : line.length < 200 := h.short
      have hlen : (line ++ [b]).length = line.length + 1 := List.length_append
      have hcount := (count_reads ⟨(line ++ [b]).length, by omega⟩).1
      simp only at hcount
      rw [if_neg hb, if_neg hb, h.length_eq, h.succ_eq b, hcount, hlen, Usmart.usartRecLen]
      by_cases hlast : line.length = 199
      · rw [if_pos (by omega), if_pos hlast]
        exact shows_nil _
      · rw [if_neg (by omega), if_neg hlast, ← hlen]
        exact shows_counted (HoldsAt.snoc h.buf b) (by omega)

/-- **`usmart_scan` hands over a line which has ended.** -/
theorem usmartScan_full (h : Shows u c) (hp : c.phase = .full) :
    ∃ f, usmartScan u = (⟨0, f⟩, some c.line) := by
  refine ⟨Function.update u.rxBuf c.line.length 0, ?_⟩
  unfold usmartScan
  rw [if_pos fun h0 => h.full_iff.mp h0 hp, h.len_eq]
  simp only [Prod.mk.injEq, Option.some.injEq, true_and]
  refine List.ext_getElem (by simp) fun i h1 h2 => ?_
  have hat := h.buf i h2
  rw [Nat.zero_add] at hat
  simp only [List.getElem_map, List.getElem_range]
  rw [Function.update_of_ne (Nat.ne_of_lt h2), hat]

theorem usmartScan_of_ne_full (h : Shows u c) (hp : c.phase ≠ .full) : usmartScan u = (u, none) := by
  unfold usmartScan
  rw [if_neg (not_not.mpr (h.full_iff.mpr hp))]

end PlcFirmware.Serial
