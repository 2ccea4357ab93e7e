import Sm83.Bus.Region
import Sm83.Cartridge.Mapper
import Sm83.Cpu.Error
import Sm83.Interrupt

/-! # The log

What the machine reports about itself.

* **Events.** A `LogEvent` keeps the values it is about, not its text; `LogEvent.message` renders
  it and `LogEvent.level` says how severe it is.
* **Threshold.** A `Log` keeps the events at its threshold and above, in order.  Nothing else in
  the machine looks at the log, so what is kept cannot change what is computed. -/

namespace Sm83

/-- How severe an event is. -/
inductive Level where
  | error | warn | info | debug | trace
deriving DecidableEq, Repr

namespace Level

/-- The rank of a level; the most severe has rank zero. -/
def rank : Level → Nat
  | error => 0
  | warn => 1
  | info => 2
  | debug => 3
  | trace => 4

/-- The name of a level. -/
def name : Level → String
  | error => "ERROR"
  | warn => "WARN"
  | info => "INFO"
  | debug => "DEBUG"
  | trace => "TRACE"

end Level

/-- What can be reported. -/
inductive LogEvent where
  /-- An instruction is about to be executed with these registers. -/
  | executing (ins : Instruction) (regs : Registers)
  /-- An interrupt was entered from `pc`; `sp` is the stack pointer afterwards. -/
  | interrupted (source : Interrupt) (pc sp : UInt16)
  /-- A STOP instruction was executed. -/
  | stopEntered (address : UInt16)
  /-- A HALT instruction was executed. -/
  | haltEntered (address : UInt16)
  /-- An interrupt request ended the STOP state. -/
  | stopLeft (pc : UInt16)
  /-- A run ended because the stop line was raised. -/
  | runInterrupted (pc : UInt16)
  /-- A run ended with an error. -/
  | runFailed (error : StepError) (regs : Registers) (ime : Bool)
  /-- The switchable ROM window shows another bank. -/
  | bankSwitched (old new requested : UInt16)
  /-- A device was put behind a region. -/
  | deviceAttached (region : Region)
  /-- A machine was built. -/
  | machineBuilt (romSize : Nat) (mapper : Mapper) (ramBanks : UInt8) (entryPoint : UInt16)
  /-- A peripheral reports something of its own. -/
  | peripheral (level : Level) (text : String)
deriving DecidableEq, Repr

namespace LogEvent

/-- The severity of an event. -/
def level : LogEvent → Level
  | executing _ _ => .trace
  | runFailed _ _ _ => .error
  | peripheral level _ => level
  | _ => .debug

/-- The accumulator, the pairs and the stack pointer in a trace line. -/
def registerColumns (regs : Registers) : String :=
  "AF=" ++ hexWord (regs.getWord .af) ++ " BC=" ++ hexWord (regs.getWord .bc) ++
  " DE=" ++ hexWord (regs.getWord .de) ++ " HL=" ++ hexWord (regs.getWord .hl) ++
  " SP=" ++ hexWord regs.sp

/-- An event in words. -/
def message : LogEvent → String
  | executing ins regs =>
    hexWord ins.address ++ ": " ++ padRight 18 ins.text ++ " " ++ registerColumns regs
  | interrupted source pc sp =>
    "GB CPU interrupt: " ++ source.name ++ " vector=0x" ++ hexWord source.vector ++
    " pc=0x" ++ hexWord pc ++ " sp=0x" ++ hexWord sp
  | stopEntered address => "GB CPU STOP at PC=0x" ++ hexWord address
  | haltEntered address => "GB CPU HALT at PC=0x" ++ hexWord address
  | stopLeft pc => "GB CPU leaving STOP at PC=0x" ++ hexWord pc
  | runInterrupted pc => "GB CPU run interrupted by stop signal at PC=0x" ++ hexWord pc
  | runFailed error regs ime =>
    "GB CPU stopped: " ++ error.message ++ " (SP=0x" ++ hexWord regs.sp ++
    " AF=0x" ++ hexWord (regs.getWord .af) ++ " BC=0x" ++ hexWord (regs.getWord .bc) ++
    " DE=0x" ++ hexWord (regs.getWord .de) ++ " HL=0x" ++ hexWord (regs.getWord .hl) ++
    " IME=" ++ (if ime then "true" else "false") ++ ")"
  | bankSwitched old new requested =>
    "cartridge ROM bank " ++ old.toNat.repr ++ " -> " ++ new.toNat.repr ++
    " (requested " ++ requested.toNat.repr ++ ")"
  | deviceAttached region =>
    "attaching device to " ++ region.name ++ " (" ++ region.rangeText ++ ")"
  | machineBuilt romSize mapper ramBanks entryPoint =>
    "machine: " ++ romSize.repr ++ " byte ROM, " ++ mapper.name ++ " mapper, " ++
    ramBanks.toNat.repr ++ " RAM banks, entry 0x" ++ hexWord entryPoint
  | peripheral _ text => text

end LogEvent

/-- The events kept so far.  Without a threshold none is kept. -/
structure Log where
  threshold : Option Level := none
  events : Array LogEvent := #[]
deriving DecidableEq, Repr

namespace Log

/-- Whether an event is severe enough to be kept. -/
def keeps (log : Log) (event : LogEvent) : Bool :=
  log.threshold.any fun level => event.level.rank ≤ level.rank

/-- Reports an event. -/
def add (event : LogEvent) (log : Log) : Log :=
  if log.keeps event then { log with events := log.events.push event } else log

@[simp] theorem threshold_add (event : LogEvent) (log : Log) :
    (log.add event).threshold = log.threshold := by
  unfold add
  split <;> rfl

theorem toList_events_add (event : LogEvent) (log : Log) :
    (log.add event).events.toList =
      log.events.toList ++ if log.keeps event then [event] else [] := by
  unfold add
  split <;> simp

end Log

end Sm83
