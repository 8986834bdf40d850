import SerialPort.Usart.Basic

namespace SerialPort.Usart

theorem wire_append_inFlight_shiftOut (u : Usart) :
    u.shiftOut.2.wire ++ u.shiftOut.2.inFlight = u.wire ++ u.inFlight := by
  unfold shiftOut
  split
  · rfl
  · simp_all [inFlight]

theorem clock_eq_or_length_inFlight (u : Usart) :
    u.clock = u ∨ u.clock.inFlight.length + 1 = u.inFlight.length := by
  unfold clock
  split
  · unfold shiftOut
    split
    · exact .inl rfl
    · right
      simp_all [inFlight]
  · exact .inl rfl

theorem length_inFlight_clock_le (u : Usart) :
    u.clock.inFlight.length ≤ u.inFlight.length := by
  cases u.clock_eq_or_length_inFlight with
  | inl h => exact Nat.le_of_eq (congrArg (·.inFlight.length) h)
  | inr h => omega

/-- While a byte stays in the data register, the line has not moved. -/
theorem clock_eq_of_data {u : Usart} (h : u.clock.data ≠ none) : u.clock = u := by
  revert h
  unfold clock
  split
  · unfold shiftOut
    split
    · exact fun _ => rfl
    · exact fun h => absurd rfl h
  · exact fun _ => rfl

@[simp] theorem txInterrupt_clock (u : Usart) : u.clock.txInterrupt = u.txInterrupt := by
  unfold clock
  split
  · unfold shiftOut
    split <;> rfl
  · rfl

theorem length_inFlight_putData {u : Usart} (h : u.data = none) (b : UInt8) :
    (u.putData b).inFlight.length = u.inFlight.length + 1 := by
  unfold putData
  split <;> simp_all [inFlight]

end SerialPort.Usart
