import Tftp.Mode.Netascii
import Tftp.Stream.Sink

namespace Tftp

structure Store where
  sink : Sink
  decoder : Option Netascii.Decoder := none
deriving DecidableEq, Repr

namespace Store

def ofMode (sink : Sink) : Mode → Store
  | .octet => { sink }
  | .netascii => { sink, decoder := some {} }

def unpack (store : Store) (payload : Bytes) : Store × Bytes :=
  match store.decoder with
  | none => (store, payload)
  | some decoder =>
    let (decoder, bytes) := decoder.decode payload
    ({ store with decoder := some decoder }, bytes)

/-- The store without the octet held back, and that octet. -/
def release (store : Store) : Store × Bytes :=
  match store.decoder with
  | none => (store, [])
  | some decoder =>
    let (decoder, bytes) := decoder.finish
    ({ store with decoder := some decoder }, bytes)

def put (disk : Disk) (bytes : Bytes) (store : Store) : Disk × Store × Except Fault Unit :=
  let (disk, sink, result) := store.sink.write disk bytes
  (disk, { store with sink }, result)

def write (disk : Disk) (payload : Bytes) (store : Store) : Disk × Store × Except Fault Unit :=
  let (store, bytes) := store.unpack payload
  store.put disk bytes

def finish (disk : Disk) (store : Store) : Disk × Store × Except Fault Unit :=
  let (store, bytes) := store.release
  match store.put disk bytes with
  | (disk, store, .ok ()) =>
    let (disk, result) := store.sink.flush disk
    (disk, store, result)
  | failed => failed

end Store

end Tftp
