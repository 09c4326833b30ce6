/-!
# File signatures

The formats that are recognised by the first bytes of a file.
-/

namespace PullIngest

/-- The formats with a known signature. -/
inductive Format where
  | png
  | zip
  | jpeg
  | vhdx
  deriving DecidableEq, Repr

namespace Format

/-- The number of leading bytes that is enough to tell every format. -/
def signatureLength : Nat := 8

/-- The byte sequences that files of a format begin with. -/
def signatures : Format → List (List UInt8)
  | png => [[0x89, 0x50, 0x4e, 0x47, 0x0d, 0x0a, 0x1a, 0x0a]]
  | zip => [[0x50, 0x4b, 0x03, 0x04], [0x50, 0x4b, 0x05, 0x06]]
  | jpeg => [[0xff, 0xd8, 0xff]]
  | vhdx => [[0x76, 0x68, 0x64, 0x78, 0x66, 0x69, 0x6c, 0x65]]

/-- The format whose signature comes first in a file. -/
def detect? (head : List UInt8) : Option Format :=
  [png, zip, jpeg, vhdx].find? fun f => f.signatures.any fun s => s.isPrefixOf head

/-- The name of a format. -/
def name : Format → String
  | png => "png"
  | zip => "zip"
  | jpeg => "jpeg"
  | vhdx => "vhdx"

end Format

end PullIngest
