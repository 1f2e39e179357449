namespace Tftp.Block

inductive Order where
  | expected
  | behind
  | ahead
deriving DecidableEq, Repr

/-- Block numbers live on a circle of sixteen bits. The number exactly half a circle away counts as behind. -/
def order (received expected : UInt16) : Order :=
  let steps := (received - expected).toNat
  if steps = 0 then .expected else if steps < 32768 then .ahead else .behind

end Tftp.Block
