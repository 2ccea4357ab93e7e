import Sm83.Hex

/-! # Regions

The five ranges of addresses whose memory is not on the cartridge.  Each can be backed by plain
memory or by a peripheral. -/

namespace Sm83

/-- The ranges of addresses behind which a device can be put. -/
inductive Region where
  | videoRam
  | workRam
  | oam
  | io
  | highRam
deriving DecidableEq, Repr

namespace Region

/-- The lowest address of a region. -/
def first : Region → UInt16
  | videoRam => 0x8000
  | workRam => 0xC000
  | oam => 0xFE00
  | io => 0xFF00
  | highRam => 0xFF80

/-- The highest address of a region. -/
def last : Region → UInt16
  | videoRam => 0x9FFF
  | workRam => 0xDFFF
  | oam => 0xFE9F
  | io => 0xFF7F
  | highRam => 0xFFFE

/-- The number of addresses of a region. -/
def size (region : Region) : Nat := region.last.toNat + 1 - region.first.toNat

/-- The name of a region. -/
def name : Region → String
  | videoRam => "VideoRam"
  | workRam => "WorkRam"
  | oam => "Oam"
  | io => "Io"
  | highRam => "HighRam"

/-- The addresses of a region as an inclusive range. -/
def rangeText (region : Region) : String := hexWord region.first ++ "..=" ++ hexWord region.last

end Region

end Sm83
