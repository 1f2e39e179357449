import Tftp.Options.Basic
import Tftp.Text.Decimal

namespace Tftp.Options

open Letter

/-- A value that cannot be used never fails a transfer: the option falls back to its default and is not accepted. -/
inductive Known where
  | blksize
  | timeout
  | tsize
deriving DecidableEq, Repr

namespace Known

def all : List Known := [blksize, timeout, tsize]

def name : Known → String
  | blksize => "blksize"
  | timeout => "timeout"
  | tsize => "tsize"

def default : Known → Nat
  | blksize => 512
  | timeout => 5
  | tsize => 0

def least : Known → Nat
  | blksize => 8
  | timeout => 1
  | tsize => 0

def greatest : Known → Nat
  | blksize => 65464
  | timeout => 255
  | tsize => 4294967295

def unset (known : Known) : Entry :=
  { name := known.name, text := toString known.default, value := known.default }

def settle (known : Known) (text : String) : Entry :=
  match Decimal.read Decimal.maxUInt64 text with
  | .ok value =>
    if known.least ≤ value ∧ value ≤ known.greatest then
      { name := known.name, text := toString value, value, accepted := true }
    else known.unset
  | .error _ => known.unset

def hear (known : Known) (requested : List Entry) : Entry :=
  requested.foldl
    (fun entry request => if SameName request.name known.name then known.settle request.text else entry)
    known.unset

end Known

def defaults : Options :=
  ⟨Known.all.map Known.unset⟩

/-- The known options, all three and in their own order, settled by what was requested. -/
def validate (options : Options) : Options :=
  ⟨Known.all.map fun known => known.hear options.entries⟩

def valueOrDefault (options : Options) (known : Known) : Nat :=
  (options.value? known.name).getD known.default

def blockSize (options : Options) : Nat :=
  options.valueOrDefault .blksize

def timeoutSeconds (options : Options) : Nat :=
  options.valueOrDefault .timeout

def transferSize (options : Options) : Nat :=
  options.valueOrDefault .tsize

end Tftp.Options
