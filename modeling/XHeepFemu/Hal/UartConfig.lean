import XHeepFemu.Hal.Uart

/-!
# The baud rate

When `uartInit` sets up a baud rate generator that ticks. A generator is programmed
with `NCO`, the baud rate as a fraction of the clock; `uart_init` refuses one that
does not fit its field, and a field of zero stands still.
-/

namespace XHeepFemu.Hal

open Lib (Io Device recorder)
open Hw (UartReg)

/-- The NCO over the integers, `16 * 2 ^ ncoWidth * baud / fclk`. -/
def nco (uart : Uart) : Nat := uart.baudrate.toNat * 2 ^ 20 / uart.clkFreqHz.toNat

/-- The NCO is defined, and a generator programmed with it ticks. -/
def Generates (uart : Uart) : Prop :=
  uart.clkFreqHz ≠ 0 ∧ 1 ≤ nco uart ∧ nco uart ≤ 0xffff

/-- CTRL holds the NCO, with both directions on and the parity off. -/
def ConfiguredWith (uart : Uart) (ctrl : Word) : Prop :=
  (bitfieldField32Read ctrl uartCtrlNcoField).toNat = nco uart ∧
  bitfieldBit32Read ctrl uartCtrlTxBit = true ∧
  bitfieldBit32Read ctrl uartCtrlRxBit = true ∧
  bitfieldBit32Read ctrl uartCtrlParityEnBit = false

/-- What `uart_init` is to do: whatever the UART was doing, it succeeds for the generators that
tick and sets them up, and otherwise stores nothing. -/
def ConfiguresUart (uart : Uart) : Prop :=
  ∃ result stores, (recorder fun _ => 0).finish [] (uartInit (some uart)) = some (stores, result) ∧
    (result = .kErrorOk ↔ Generates uart) ∧
    (result = .kErrorOk → uart.baudrate.toNat * 2 ^ 20 < 2 ^ 64 ∧
      nco uart * uart.clkFreqHz.toNat ≤ uart.baudrate.toNat * 2 ^ 20 ∧
      uart.baudrate.toNat * 2 ^ 20 < (nco uart + 1) * uart.clkFreqHz.toNat ∧
      ∀ txDepth u, ∃ u', (Hw.Uart.device txDepth).finish u (uartInit (some uart)) =
        some (u', .kErrorOk) ∧ ConfiguredWith uart u'.ctrl) ∧
    (result ≠ .kErrorOk → stores = [])

/-! ## The control register -/

theorem uartCtrlWord_configures (ncoMasked : Word) (h : ncoMasked.toNat ≤ 0xffff) :
    bitfieldField32Read (uartCtrlWord ncoMasked) uartCtrlNcoField = ncoMasked ∧
    bitfieldBit32Read (uartCtrlWord ncoMasked) uartCtrlTxBit = true ∧
    bitfieldBit32Read (uartCtrlWord ncoMasked) uartCtrlRxBit = true ∧
    bitfieldBit32Read (uartCtrlWord ncoMasked) uartCtrlParityEnBit = false := by
  have hmask : ∀ j, j < 32 → (0xffff : Word).getLsbD j = decide (j < 16) :=
    fun j hj => getLsbD_ones 16 hj
  have hzero : ∀ j, (0 : Word).getLsbD j = false := fun j => BitVec.getLsbD_zero
  have hbit : ∀ j, j < 32 → (uartCtrlWord ncoMasked).getLsbD j =
      if j = 1 then true else if j = 6 then false else if j = 0 then true
      else if 16 ≤ j then ncoMasked.getLsbD (j - 16) else false := fun j hj => by
    have hfield : 16 ≤ j → (0xffff : Word).getLsbD (j - 16) = true := fun h16 => by
      rw [hmask _ (by omega), decide_eq_true_eq]
      omega
    simp only [uartCtrlWord, getLsbD_bit32Write _ _ _ hj, getLsbD_field32Write _ _ _ hj,
      uartCtrlRxBit, uartCtrlTxBit, uartCtrlParityEnBit, uartCtrlNcoField, uartCtrlNcoMask, hzero]
    by_cases h16 : 16 ≤ j
    · simp only [h16, hfield h16, and_self, if_true]
    · simp only [h16, false_and, if_false]
  simp only [bit32Read_eq]
  refine ⟨BitVec.eq_of_getLsbD_eq fun j hj => ?_, hbit _ (by decide), hbit _ (by decide),
    hbit _ (by decide)⟩
  simp only [bitfieldField32Read, uartCtrlNcoField, uartCtrlNcoMask, BitVec.getLsbD_and,
    BitVec.getLsbD_ushiftRight, hmask j hj]
  by_cases h16 : j < 16
  · rw [hbit _ (by omega), if_neg (by omega), if_neg (by omega), if_neg (by omega),
      if_pos (by omega), Nat.add_sub_cancel_left]
    simp only [h16, decide_true, Bool.and_true]
  · have hpow : ncoMasked.toNat < 2 ^ j :=
      Nat.lt_of_lt_of_le (show ncoMasked.toNat < 2 ^ 16 by omega)
        (Nat.pow_le_pow_right (by omega) (Nat.not_lt.mp h16))
    have hhigh : ncoMasked.getLsbD j = false := Nat.testBit_lt_two_pow hpow
    simp only [h16, decide_false, Bool.and_false, hhigh]

/-! ## The branches of `uartInit` -/

theorem uartNco_toNat {uart : Uart} : (uartNco uart).toNat = nco uart := by
  have hbaud := uart.baudrate.isLt
  have hclk := uart.clkFreqHz.isLt
  have hshift : (uart.baudrate.setWidth 64 <<< (ncoWidth + 4)).toNat =
      uart.baudrate.toNat * 2 ^ 20 := by
    rw [BitVec.toNat_shiftLeft, BitVec.toNat_setWidth, Nat.shiftLeft_eq]
    show uart.baudrate.toNat % 2 ^ 64 * 2 ^ 20 % 2 ^ 64 = _
    omega
  rw [uartNco, BitVec.toNat_udiv, hshift, BitVec.toNat_setWidth, nco,
    Nat.mod_eq_of_lt (by omega : uart.clkFreqHz.toNat < 2 ^ 64)]

theorem ncoMasked_eq_iff (uart : Uart) :
    uartNco uart = ((uartNco uart &&& uartCtrlNcoMask.setWidth 64).setWidth 32 : Word).setWidth 64 ↔
      nco uart ≤ 0xffff := by
  rw [← BitVec.toNat_inj, ← uartNco_toNat]
  have hand : (uartNco uart &&& uartCtrlNcoMask.setWidth 64).toNat =
      (uartNco uart).toNat % 2 ^ 16 := by
    rw [BitVec.toNat_and]
    exact Nat.and_two_pow_sub_one_eq_mod _ 16
  rw [BitVec.toNat_setWidth, BitVec.toNat_setWidth, hand]
  omega

/-- The stores of a `uart_init` that succeeds. -/
def uartSetUp (ncoMasked : Word) : UartIo SystemError := do
  uartReset
  Io.store .ctrl (uartCtrlWord ncoMasked)
  Io.store .intrEnable 0
  pure .kErrorOk

theorem uartInit_cases (uart : Uart) :
    (∃ error, ¬(uart.baudrate ≠ 0 ∧ uart.clkFreqHz ≠ 0 ∧ nco uart ≤ 0xffff) ∧
      error ≠ .kErrorOk ∧ uartInit (some uart) = pure error) ∨
    (∃ ncoMasked : Word, uart.baudrate ≠ 0 ∧ uart.clkFreqHz ≠ 0 ∧ nco uart ≤ 0xffff ∧
      ncoMasked.toNat = nco uart ∧ uartInit (some uart) = uartSetUp ncoMasked) := by
  by_cases harg : uart.baudrate = 0 ∨ uart.clkFreqHz = 0
  · refine .inl ⟨.kErrorUartInvalidArgument, ?_, nofun, if_pos harg⟩
    rintro ⟨hb, hc, _⟩
    exact harg.elim hb hc
  · obtain ⟨hb, hc⟩ := not_or.mp harg
    have hinit : uartInit (some uart) = if uartNco uart ≠
        ((uartNco uart &&& uartCtrlNcoMask.setWidth 64).setWidth 32 : Word).setWidth 64
      then pure .kErrorUartBadBaudRate
      else uartSetUp ((uartNco uart &&& uartCtrlNcoMask.setWidth 64).setWidth 32) := if_neg harg
    by_cases hnco : nco uart ≤ 0xffff
    · have heq := (ncoMasked_eq_iff uart).mpr hnco
      refine .inr ⟨_, hb, hc, hnco, ?_, hinit.trans (if_neg (not_not.mpr heq))⟩
      have hval := congrArg BitVec.toNat heq
      rw [uartNco_toNat, BitVec.toNat_setWidth] at hval
      omega
    · refine .inl ⟨.kErrorUartBadBaudRate, fun h => hnco h.2.2, nofun, hinit.trans (if_pos ?_)⟩
      exact fun h => hnco ((ncoMasked_eq_iff uart).mp h)

theorem finish_uartSetUp (ncoMasked : Word) (txDepth : Nat) (u : Hw.Uart) :
    ∃ u', (Hw.Uart.device txDepth).finish u (uartSetUp ncoMasked) = some (u', .kErrorOk) ∧
      u'.ctrl = uartCtrlWord ncoMasked :=
  ⟨_, rfl, rfl⟩

theorem nco_bounds {uart : Uart} (hclk : uart.clkFreqHz ≠ 0) :
    nco uart * uart.clkFreqHz.toNat ≤ uart.baudrate.toNat * 2 ^ 20 ∧
      uart.baudrate.toNat * 2 ^ 20 < (nco uart + 1) * uart.clkFreqHz.toNat := by
  have hpos : 0 < uart.clkFreqHz.toNat :=
    Nat.pos_of_ne_zero fun h => hclk (BitVec.eq_of_toNat_eq h)
  exact ⟨Nat.div_mul_le_self _ _, Nat.lt_mul_of_div_lt (Nat.lt_succ_self _) hpos⟩

/-- The quotient is zero just for the rates that are too low. -/
theorem nco_pos_iff {uart : Uart} (hclk : uart.clkFreqHz ≠ 0) :
    1 ≤ nco uart ↔ uart.clkFreqHz.toNat ≤ uart.baudrate.toNat * 2 ^ 20 := by
  have hpos : 0 < uart.clkFreqHz.toNat :=
    Nat.pos_of_ne_zero fun h => hclk (BitVec.eq_of_toNat_eq h)
  rw [nco, Nat.le_div_iff_mul_le hpos, Nat.one_mul]

/-- `uart_init` is right unless the baud rate is too low for the clock. -/
theorem uartInit_configures_iff (uart : Uart) :
    ConfiguresUart uart ↔
      ¬(uart.baudrate ≠ 0 ∧ uart.baudrate.toNat * 2 ^ 20 < uart.clkFreqHz.toNat) := by
  have hbaud := uart.baudrate.isLt
  rcases uartInit_cases uart with ⟨error, hno, herror, hinit⟩ |
    ⟨ncoMasked, hb, hclk, hfits, hval, hinit⟩
  · have hnot : ¬Generates uart := fun ⟨hc, hpos, hle⟩ => by
      refine hno ⟨fun h0 => ?_, hc, hle⟩
      rw [nco, h0] at hpos
      simp at hpos
    refine iff_of_true ?_ ?_
    · refine ⟨error, [], by rw [hinit]; rfl, iff_of_false herror hnot, ?_, fun _ => rfl⟩
      exact fun h => absurd h herror
    · rintro ⟨hb, hlow⟩
      have hc : uart.clkFreqHz ≠ 0 := fun h0 => by
        rw [h0] at hlow
        exact Nat.not_lt_zero _ hlow
      have hzero := (nco_pos_iff hc).not.mpr (Nat.not_le.mpr hlow)
      exact hno ⟨hb, hc, by omega⟩
  · have hgen : Generates uart ↔
        ¬(uart.baudrate ≠ 0 ∧ uart.baudrate.toNat * 2 ^ 20 < uart.clkFreqHz.toNat) := by
      rw [Generates, nco_pos_iff hclk]
      constructor
      · exact fun h hlow => absurd h.2.1 (Nat.not_le.mpr hlow.2)
      · exact fun h => ⟨hclk, Nat.not_lt.mp fun hlow => h ⟨hb, hlow⟩, hfits⟩
    rw [← hgen]
    constructor
    · rintro ⟨result, stores, hrun, hok, _, _⟩
      rw [hinit] at hrun
      cases hrun
      exact hok.mp rfl
    · intro h
      refine ⟨.kErrorOk, _, by rw [hinit]; rfl, iff_of_true rfl h, fun _ => ?_,
        fun hne => absurd rfl hne⟩
      refine ⟨by omega, (nco_bounds hclk).1, (nco_bounds hclk).2, fun txDepth u => ?_⟩
      obtain ⟨u', hrun, hctrl⟩ := finish_uartSetUp ncoMasked txDepth u
      refine ⟨u', by rw [hinit, hrun], ?_⟩
      obtain ⟨hfield, hbits⟩ := uartCtrlWord_configures ncoMasked (by omega)
      rw [ConfiguredWith, hctrl, hfield]
      exact ⟨hval, hbits⟩

/-- One baud of a 2 MHz clock gives a generator that stands still. -/
theorem uartInit_stands_still : ¬ConfiguresUart { baudrate := 1, clkFreqHz := 0x200000 } := by
  rintro ⟨result, stores, hrun, hok, _, _⟩
  have hstop : uartInit (some { baudrate := 1, clkFreqHz := 0x200000 }) = uartSetUp 0 := rfl
  rw [hstop] at hrun
  cases hrun
  exact absurd (hok.mp rfl).2.1 (by decide)

end XHeepFemu.Hal
