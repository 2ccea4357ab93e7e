/-! # Mappers

The kinds of bank controller that a cartridge can have. -/

namespace Sm83

/-- The bank controller of a cartridge. -/
inductive Mapper where
  /-- No controller: writes to the ROM area are ignored. -/
  | romOnly
  /-- A controller with a five-bit and a two-bit bank register. -/
  | mbc1
deriving DecidableEq, Repr

/-- The name of a mapper. -/
def Mapper.name : Mapper → String
  | .romOnly => "RomOnly"
  | .mbc1 => "Mbc1"

end Sm83
