import HeaterLink.Proofs.Commands.Weekdays
import HeaterLink.Wire.Command

/-!
# What a command frame says

A decoder for command frames: it checks the magic bytes, the length code and the
reserved bytes, and reads the arguments by the opcode. It gets back from every
frame what was put into it. Of a clock that is the time of day, the day, the
weekday and the month, and of the year the last two digits.
-/

set_option autoImplicit false

namespace HeaterLink

def unpackDigits? (b : UInt8) : Option Nat :=
  if b.toNat / 16 ≤ 9 ∧ b.toNat % 16 ≤ 9 then some (b.toNat / 16 * 10 + b.toNat % 16) else none

structure Face where
  second : Nat
  minute : Nat
  hour : Nat
  day : Nat
  weekday : Nat
  month : Nat
  year : Nat
  deriving DecidableEq

namespace Face

def fields (f : Face) : List Nat :=
  [f.second, f.minute, f.hour, f.day, f.weekday, f.month, f.year]

def ofFields? : List Nat → Option Face
  | [second, minute, hour, day, weekday, month, year] =>
    some ⟨second, minute, hour, day, weekday, month, year⟩
  | _ => none

end Face

def Clock.face (c : Clock) : Face where
  second := c.time.second
  minute := c.time.minute
  hour := c.time.hour
  day := c.date.day
  weekday := c.date.weekday
  month := c.date.month
  year := (c.date.year % 100).toNat

inductive Content
  | noOp
  | turnOff
  | hello (face : Face)
  | turnOn (degrees : UInt8)
  deriving DecidableEq

def Command.content : Command → Content
  | .noOp => .noOp
  | .turnOff => .turnOff
  | .hello clock => .hello clock.face
  | .turnOn degrees => .turnOn degrees

namespace Content

def ofArguments? (opcode : UInt8) (arguments : Bytes) : Option Content :=
  if opcode = Opcode.hello.byte then
    ((arguments.mapM unpackDigits?).bind Face.ofFields?).map .hello
  else match arguments with
    | [] => if opcode = Opcode.noOp.byte then some .noOp else none
    | [a] =>
      if opcode = Opcode.turnOn.byte then some (.turnOn a)
      else if opcode = Opcode.turnOff.byte ∧ a = 0 then some .turnOff
      else none
    | _ => none

def decode? (frame : Bytes) : Option Content :=
  if magic.isPrefixOf frame then
    match frame.drop magic.length with
    | code :: 0 :: 0 :: opcode :: arguments =>
      if code.toNat = 4 + arguments.length then ofArguments? opcode arguments else none
    | _ => none
  else none

end Content

theorem unpackDigits?_packDigits {n : Nat} (h : n < 100) :
    unpackDigits? (packDigits n) = some n := by
  have hbyte : (packDigits n).toNat = n / 10 * 16 + n % 10 := by
    rw [packDigits, UInt8.toNat_ofNat']
    omega
  rw [unpackDigits?, hbyte, if_pos (by omega)]
  exact congrArg some (by omega)

/-- Digits are unpacked as they were packed. -/
theorem mapM_packDigits : ∀ {l : List Nat}, (∀ n ∈ l, n < 100) →
    (l.map packDigits).mapM unpackDigits? = some l := by
  intro l h
  induction l with
  | nil => rfl
  | cons n rest ih =>
    obtain ⟨hn, hrest⟩ := List.forall_mem_cons.mp h
    rw [List.map_cons, List.mapM_cons, unpackDigits?_packDigits hn, ih hrest]
    rfl

namespace Clock

variable {c : Clock}

theorem bytes_eq (c : Clock) : c.bytes = c.face.fields.map packDigits := rfl

theorem fields_lt (h : c.valid) : ∀ n ∈ c.face.fields, n < 100 := by
  obtain ⟨hdate, htime⟩ := Bool.and_eq_true_iff.mp h
  obtain ⟨-, -, -, hmonth, -, hday⟩ := Date.valid_iff.mp hdate
  have hlong := Date.daysInMonth_le c.date.year c.date.month
  have hweekday := c.date.weekday_bounds.2
  simp only [TimeOfDay.valid, Bool.and_eq_true, decide_eq_true_eq] at htime
  simp only [Face.fields, face, List.forall_mem_cons]
  refine ⟨by omega, by omega, by omega, by omega, by omega, by omega, by omega, ?_⟩
  simp

end Clock

namespace Command

def Valid : Command → Prop
  | .hello clock => clock.valid
  | _ => True

theorem code_toNat (c : Command) :
    (UInt8.ofNat (4 + c.arguments.length)).toNat = 4 + c.arguments.length := by
  cases c <;> rfl

theorem ofArguments?_arguments {c : Command} (h : c.Valid) :
    Content.ofArguments? c.opcode.byte c.arguments = some c.content := by
  cases c with
  | noOp => rfl
  | turnOff => rfl
  | turnOn d => rfl
  | hello clock =>
    have hread : clock.bytes.mapM unpackDigits? = some clock.face.fields :=
      mapM_packDigits (Clock.fields_lt h)
    show ((clock.bytes.mapM unpackDigits?).bind Face.ofFields?).map Content.hello = _
    rw [hread]
    rfl

theorem decode?_frame {c : Command} (h : c.Valid) : Content.decode? c.frame = some c.content := by
  show (if (UInt8.ofNat (4 + c.arguments.length)).toNat = 4 + c.arguments.length then
    Content.ofArguments? c.opcode.byte c.arguments else none) = _
  rw [if_pos c.code_toNat, ofArguments?_arguments h]

theorem frame_of_content {c c' : Command} (same : c.content = c'.content) :
    c.frame = c'.frame := by
  cases c <;> cases c' <;> simp only [content, reduceCtorEq] at same
  case noOp.noOp => rfl
  case turnOff.turnOff => rfl
  case hello.hello clock clock' =>
    simp only [frame, arguments, opcode, Clock.bytes_eq, Content.hello.inj same]
  case turnOn.turnOn d d' => rw [Content.turnOn.inj same]

/-- The clock of a hello is told digit by digit, its weekdays are those of the calendar, and every
frame says how long it is and what command with which arguments it carries. -/
theorem frame_tells :
    (∀ clock : Clock, clock.valid → (Command.hello clock).frame.length = 15 ∧
      ((Command.hello clock).frame.drop 8).mapM unpackDigits? =
        some [clock.time.second, clock.time.minute, clock.time.hour, clock.date.day,
          clock.date.weekday, clock.date.month, (clock.date.year % 100).toNat] ∧
      0 ≤ clock.date.year % 100) ∧
    (∀ d : Date, d.valid → 1 ≤ d.weekday ∧ d.weekday ≤ 7 ∧
      d.next.weekday = d.weekday % 7 + 1) ∧
    (⟨2024, 3, 18⟩ : Date).weekday = 1 ∧
    (∀ w : Date → Nat, (∀ d : Date, d.valid → 1 ≤ w d ∧ w d ≤ 7) →
      (∀ d : Date, d.valid → w d.next = w d % 7 + 1) → w ⟨2024, 3, 18⟩ = 1 →
      ∀ d : Date, d.valid → w d = d.weekday) ∧
    (∀ c : Command, ∃ code rest, c.frame = magic ++ code :: rest ∧ c.frame[4]? = some code ∧
      code.toNat = (code :: rest).length) ∧
    (∀ c : Command, c.Valid → Content.decode? c.frame = some c.content) ∧
    ∀ c c' : Command, c.Valid → c'.Valid → (c.frame = c'.frame ↔ c.content = c'.content) := by
  refine ⟨fun clock h => ⟨rfl, mapM_packDigits (Clock.fields_lt h), by omega⟩,
    fun d h => ⟨d.weekday_bounds.1, d.weekday_bounds.2, Date.weekday_next h⟩, by decide +kernel,
    fun w bounds goesRound known d hd => ?_, fun c => ⟨_, _, rfl, rfl, ?_⟩, fun c => decode?_frame,
    fun c c' h h' => ⟨fun same => ?_, frame_of_content⟩⟩
  · exact Date.weekday_unique bounds goesRound (by decide +kernel : (⟨2024, 3, 18⟩ : Date).valid)
      (known.trans (by decide +kernel)) hd
  · rw [c.code_toNat]
    simp only [List.length_cons]
    omega
  · rw [← Option.some_inj, ← decode?_frame h, ← decode?_frame h', same]

def leapDay : Clock := ⟨⟨-4, 2, 29⟩, ⟨21, 45, 7⟩⟩

/-- The evening of a leap day before year one. -/
theorem frame_tells_leapDay :
    ((Command.hello leapDay).frame.drop 8).mapM unpackDigits? = some [7, 45, 21, 29, 4, 2, 96] ∧
    (⟨-4, 3, 1⟩ : Date).weekday = 5 ∧
    ((leapDay.date.number + 6) % 7).toNat + 1 = leapDay.date.weekday ∧
    Content.decode? (Command.hello leapDay).frame = some (Command.hello leapDay).content ∧
    (Command.hello leapDay).frame ≠ (Command.turnOn 29).frame := by
  obtain ⟨hello, goesRound, known, unique, -, decodes, differ⟩ := frame_tells
  refine ⟨(hello leapDay (by decide +kernel)).2.1,
    (goesRound leapDay.date (by decide +kernel)).2.2.trans (by decide +kernel), ?_,
    decodes _ (by decide +kernel : leapDay.valid), ?_⟩
  · refine unique (fun d => ((d.number + 6) % 7).toNat + 1) (fun d hd => by omega)
      (fun d hd => ?_) (by decide +kernel) leapDay.date (by decide +kernel)
    simp only [Date.number_next hd]
    omega
  · rw [Ne, differ (.hello leapDay) (.turnOn 29) (by decide +kernel : leapDay.valid) trivial]
    exact Content.noConfusion

end Command

end HeaterLink
