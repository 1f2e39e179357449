import Tftp.Net.Ip

namespace Tftp

structure Endpoint where
  ip : Ip
  port : UInt16
  scope : Nat := 0
deriving DecidableEq, Repr

namespace Endpoint

def text (endpoint : Endpoint) : String :=
  let port := ":" ++ toString endpoint.port.toNat
  match endpoint.ip with
  | .v4 .. => endpoint.ip.text ++ port
  | .v6 _ =>
    let scope := if endpoint.scope = 0 then "" else "%" ++ toString endpoint.scope
    "[" ++ endpoint.ip.text ++ scope ++ "]" ++ port

def ephemeral (peer : Endpoint) : Endpoint :=
  match peer.ip with
  | .v4 .. => { ip := .unspecified4, port := 0 }
  | .v6 _ => { ip := .unspecified6, port := 0 }

open Ip

def readPort : Reader UInt16 := fun cs => do
  let (_, cs) ← readChar ':' cs
  let (port, cs) ← readNumber 10 65535 none true cs
  return (port.toUInt16, cs)

def read4 : Reader Endpoint := fun cs => do
  let (ip, cs) ← Ip.read4 cs
  let (port, cs) ← readPort cs
  return ({ ip, port }, cs)

def readScope : Reader Nat := fun cs =>
  match readChar '%' cs with
  | some (_, cs) => readNumber 10 4294967295 none true cs
  | none => some (0, cs)

def read6 : Reader Endpoint := fun cs => do
  let (_, cs) ← readChar '[' cs
  let (ip, cs) ← Ip.read6 cs
  let (scope, cs) ← readScope cs
  let (_, cs) ← readChar ']' cs
  let (port, cs) ← readPort cs
  return ({ ip, port, scope }, cs)

def parse? (s : String) : Option Endpoint :=
  match read4 s.toList <|> read6 s.toList with
  | some (endpoint, []) => some endpoint
  | _ => none

end Endpoint

end Tftp
