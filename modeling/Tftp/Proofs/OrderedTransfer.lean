import Tftp.Proofs.OrderedBlocks
import Tftp.Proofs.Paths

namespace Tftp

namespace OrderedSystem

theorem run_add (ends : Ends) (ports : Admission.Ports) (number k l : Nat) (system : OrderedSystem) :
    system.run ends ports number (k + l) =
      (system.run ends ports number k).run ends ports number l := by
  induction k generalizing system with
  | zero =>
    rw [Nat.zero_add]
    rfl
  | succ k ih =>
    rw [Nat.succ_add]
    exact ih _

/-- What the hosts have settled before the first block. -/
structure TransferPlan where
  ends : Ends
  ports : Admission.Ports
  number : Nat
  giver : Host
  mode : Mode
  size : Nat
  size_pos : 0 < size
  size_le : size ≤ Options.Known.blksize.greatest
  wire : Bytes
  base : Disk
  file : Option FileId
  ending : Client.Ending
  opened : Host → List Packet

namespace TransferPlan

def settled (ends : Ends) (ports : Admission.Ports) (number : Nat) (giver : Host) (mode : Mode)
    (options : Options) (wire : Bytes) (base : Disk) (id : FileId) (ending : Client.Ending)
    (opened : Host → List Packet) : TransferPlan where
  ends
  ports
  number
  giver
  mode
  size := options.validate.blockSize
  size_pos := (Options.blockSize_within options).1
  size_le := (Options.blockSize_within options).2
  wire
  base
  file := some id
  ending
  opened

variable {plan : TransferPlan}

def run (plan : TransferPlan) : Nat → OrderedSystem → OrderedSystem :=
  OrderedSystem.run plan.ends plan.ports plan.number

def total (plan : TransferPlan) : Nat :=
  Block.count plan.size plan.wire

/-- The first `n` blocks are stored, and the next one is under way. -/
structure At (plan : TransferPlan) (n : Nat) (system : OrderedSystem) : Prop where
  bound : n < plan.total
  gives : ∃ disk run, system.Hosts plan.ends plan.number plan.giver disk run ∧
    run.Sending disk plan.mode plan.size plan.wire (plan.ends.of plan.giver.other) (n + 1)
  takes : ∃ disk run, system.Hosts plan.ends plan.number plan.giver.other disk run ∧
    run.Receiving disk plan.mode plan.size plan.wire (plan.ends.of plan.giver) n ∧
    run.party.file? = plan.file ∧ Disk.KeptFor plan.file plan.base disk
  parcels : system.parcels = [⟨plan.ends.of plan.giver.other, ⟨plan.ends.of plan.giver,
    (Packet.data (.ofNat (n + 1)) (Block.payload plan.size plan.wire (n + 1))).encode⟩⟩]
  given : system.sent plan.giver =
    plan.opened plan.giver ++ Block.dataPackets plan.size plan.wire (n + 1)
  taken : system.sent plan.giver.other = plan.opened plan.giver.other ++ Block.ackPackets n
  ending : system.client.ending = plan.ending

theorem other_other (host : Host) : host.other.other = host := by
  cases host <;> rfl

theorem At.next {n : Nat} {system : OrderedSystem} (h : plan.At n system) (hn : n + 1 < plan.total) :
    plan.At (n + 1) (plan.run 2 system) := by
  obtain ⟨-, ⟨gdisk, grun, hgives, hsending⟩, ⟨tdisk, trun, htakes, hreceiving, hfile, hkept⟩, hparcels,
    hgiven, htaken, hending⟩ := h
  -- the block is stored and acknowledged
  obtain ⟨tdisk', tnext, hdata, hreceiving'⟩ := hreceiving.hears_data plan.size_pos hn
  obtain ⟨hkept', hfile'⟩ := Run.onDatagram_kept .connected false tdisk _ trun
  rw [hdata, hfile] at hkept' hfile'
  obtain ⟨hheard, hhosts, hend⟩ := host_hears plan.ports plan.giver.other (.data _ _) htakes trivial
    (fun h => by cases h) (by rw [other_other]; exact hparcels) (by rw [other_other]; exact hdata) hreceiving'.stage
  -- the acknowledgment brings the next block
  obtain ⟨gnext, hack, hsending'⟩ := hsending.hears_ack plan.size_pos plan.size_le hn
  have hgives' := hheard.other.hosts gdisk grun (by rw [other_other]; exact hgives)
  rw [other_other] at hgives'
  have hparcels' := hheard.parcels
  rw [ship_fits _ _ _ (Packet.ack_fits _)] at hparcels'
  obtain ⟨hheard', hhosts', hend'⟩ := host_hears plan.ports plan.giver (.ack _) hgives' trivial (fun h => by cases h)
    hparcels' hack hsending'.stage
  refine ⟨hn, ⟨gdisk, gnext, hhosts', hsending'⟩,
    ⟨tdisk', tnext, hheard'.other.hosts _ _ hhosts, hreceiving', hfile', hkept.trans hkept'⟩, ?_, ?_, ?_, ?_⟩
  · rw [← ship_fits _ _ _ (Packet.data_fits plan.size_le plan.wire _ _)]
    exact hheard'.parcels
  · have hlog := hheard.otherLog
    rw [other_other] at hlog
    rw [Block.dataPackets_succ, ← List.append_assoc, ← hgiven, ← hlog]
    exact hheard'.log
  · rw [Block.ackPackets_succ, ← List.append_assoc, ← htaken]
    exact hheard'.otherLog.trans hheard.log
  · exact hend'.trans (hend.trans hending)

theorem At.last {n : Nat} {system : OrderedSystem} (h : plan.At n system) :
    ∃ steps, plan.At (plan.total - 1) (plan.run steps system) := by
  have hbound := h.bound
  induction hk : plan.total - 1 - n generalizing n system with
  | zero =>
    have hn : n = plan.total - 1 := by omega
    exact ⟨0, hn ▸ h⟩
  | succ k ih =>
    have hn : n + 1 < plan.total := by omega
    obtain ⟨steps, hlast⟩ := ih (h.next hn) hn (by omega)
    refine ⟨2 + steps, ?_⟩
    rwa [run, run_add]

structure Received (plan : TransferPlan) (disk : Disk) (run : Run) : Prop where
  stage : run.stage = .ended (.ok ())
  receiver : ∃ receiver, run.party = .receiver receiver ∧ receiver.blockSize = plan.size ∧
    receiver.store.sink.Holds disk (plan.mode.hostForm plan.wire)
  file : run.party.file? = plan.file
  kept : Disk.KeptFor plan.file plan.base disk

theorem Received.filed {before disk : Disk} {run : Run} {place : Place} {id : FileId}
    (h : plan.Received disk run) (hfile : plan.file = some id)
    (hmade : Disk.Made before plan.base place id) :
    Disk.SameTree before disk ∧ disk.access place = .ok () ∧ disk.node? place = some (.file id) ∧
      (disk.content id).toList = plan.mode.hostForm plan.wire := by
  have hnodes : disk.nodes = plan.base.nodes := h.kept.nodes
  refine ⟨hmade.tree.trans (Disk.sameTree_of_nodes hnodes),
    (Disk.access_congr h.kept.barred place).trans hmade.accessible, ?_, ?_⟩
  · rw [← hmade.node]
    simp only [Disk.node?, hnodes]
  · obtain ⟨receiver, hp, -, hholds⟩ := h.receiver
    have hsink : receiver.store.sink.file? = some id := by
      rw [← hfile, ← h.file, hp]
      rfl
    exact hholds.stores.content_of_file hsink

theorem total_pos (plan : TransferPlan) : plan.total - 1 + 1 = plan.total := rfl

theorem At.hears_last {system : OrderedSystem} (h : plan.At (plan.total - 1) system) :
    ∃ disk run disk' next, system.Hosts plan.ends plan.number plan.giver.other disk run ∧
      run.onDatagram .connected false disk ⟨plan.ends.of plan.giver, (Packet.data (.ofNat plan.total)
        (Block.payload plan.size plan.wire plan.total)).encode⟩ =
        { state := (disk', next), sent := [⟨plan.ends.of plan.giver, .ack (.ofNat plan.total)⟩] } ∧
      plan.Received disk' next := by
  obtain ⟨disk, run, hhosts, hreceiving, hfile, hkept⟩ := h.takes
  obtain ⟨disk', next, hdata, hstage, hreceiver⟩ := hreceiving.hears_last plan.size_pos plan.total_pos
  obtain ⟨hkept', hfile'⟩ := Run.onDatagram_kept .connected false disk _ run
  rw [hdata, hfile] at hkept' hfile'
  exact ⟨disk, run, disk', next, hhosts, hdata, hstage, hreceiver, hfile', hkept.trans hkept'⟩

theorem At.hears_done {system : OrderedSystem} (h : plan.At (plan.total - 1) system) :
    ∃ disk run next, system.Hosts plan.ends plan.number plan.giver disk run ∧
      run.onDatagram .connected false disk
        ⟨plan.ends.of plan.giver.other, (Packet.ack (.ofNat plan.total)).encode⟩ =
        { state := (disk, next), sent := [] } ∧
      next.stage = .ended (.ok ()) ∧
      ∃ sender, next.party = .sender sender ∧ sender.blockSize = plan.size := by
  obtain ⟨disk, run, hhosts, hsending⟩ := h.gives
  obtain ⟨next, hack, hstage, hparty⟩ := hsending.hears_last plan.total_pos
  obtain ⟨sender, hp, hat⟩ := hsending.party
  exact ⟨disk, run, next, hhosts, hack, hstage, sender, hparty.trans hp, hat.blockSize⟩

structure Spoken (plan : TransferPlan) (system : OrderedSystem) : Prop where
  parcels : system.parcels = []
  given : system.sent plan.giver =
    plan.opened plan.giver ++ Block.dataPackets plan.size plan.wire plan.total
  taken : system.sent plan.giver.other = plan.opened plan.giver.other ++ Block.ackPackets plan.total

theorem spoken_of_heard {before between after : OrderedSystem} (h : plan.At (plan.total - 1) before)
    (htaker : Heard plan.ends plan.giver.other
      [⟨plan.ends.of plan.giver, .ack (.ofNat plan.total)⟩] before between)
    (hgiver : Heard plan.ends plan.giver [] between after) : plan.Spoken after := by
  refine ⟨hgiver.parcels, ?_, ?_⟩
  · have hlog := htaker.otherLog
    rw [other_other] at hlog
    have hgiven := h.given
    rw [plan.total_pos] at hgiven
    rw [hgiver.log, hlog, hgiven]
    exact List.append_nil _
  · have hacks := Block.ackPackets_succ (plan.total - 1)
    rw [plan.total_pos] at hacks
    rw [hacks, ← List.append_assoc, ← h.taken, hgiver.otherLog]
    exact htaker.log

/-- The end of a download. -/
theorem At.client_takes {system : OrderedSystem} (h : plan.At (plan.total - 1) system)
    (hg : plan.giver = .server) :
    ∃ disk next, plan.Received disk next ∧ plan.Spoken (plan.run 2 system) ∧
      ((plan.run 2 system).clientDisk, (plan.run 2 system).client) =
        Client.settle disk { system.client with run := next, requesting := false } ∧
      ∃ connection, (plan.run 2 system).server.connections[plan.number]? = some connection ∧
        connection.state = .ended (.ok ()) := by
  obtain ⟨disk, run, disk', next, hhosts, hdata, hreceived⟩ := h.hears_last
  obtain ⟨gdisk, grun, gnext, hgives, hack, hstage, -⟩ := h.hears_done
  have hparcels := h.parcels
  have hspoken : ∀ between after, Heard plan.ends plan.giver.other
      [⟨plan.ends.of plan.giver, .ack (.ofNat plan.total)⟩] system between →
      Heard plan.ends plan.giver [] between after → plan.Spoken after :=
    fun _ _ => spoken_of_heard h
  rw [hg] at hhosts hdata hgives hack hparcels hspoken
  obtain ⟨htaker, hsettle⟩ := client_hears plan.ports (.data _ _) hhosts trivial (fun h => by cases h)
    hparcels hdata
  have hparcels' := htaker.parcels
  rw [ship_fits _ _ _ (Packet.ack_fits _)] at hparcels'
  obtain ⟨hgiver, connection, -, -, hconn⟩ :=
    server_hears plan.ports (.ack _) (htaker.other.hosts gdisk grun hgives) hparcels' hack
  have hover : (Connection.settle gdisk connection.file connection.created gnext).2.state =
      .ended (.ok ()) := by
    simp only [Connection.settle, hstage]
  refine ⟨disk', next, hreceived, hspoken _ _ htaker hgiver, ?_, _, hconn, hover⟩
  rw [← hsettle]
  exact Prod.ext hgiver.other.1 hgiver.other.2

theorem At.server_takes {system : OrderedSystem} (h : plan.At (plan.total - 1) system)
    (hg : plan.giver = .client) (hkeep : plan.ending = .keep) :
    ∃ disk next, plan.Received disk next ∧ plan.Spoken (plan.run 2 system) ∧
      (plan.run 2 system).serverDisk = disk ∧
      (∃ connection, (plan.run 2 system).server.connections[plan.number]? = some connection ∧
        connection.state = .ended (.ok ())) ∧
      (plan.run 2 system).client.result? = some (.ok ()) ∧
      ∃ sender, (plan.run 2 system).client.run.party = .sender sender ∧ sender.blockSize = plan.size := by
  obtain ⟨disk, run, disk', next, hhosts, hdata, hreceived⟩ := h.hears_last
  obtain ⟨gdisk, grun, gnext, hgives, hack, hstage, hsender⟩ := h.hears_done
  have hparcels := h.parcels
  have hspoken : ∀ between after, Heard plan.ends plan.giver.other
      [⟨plan.ends.of plan.giver, .ack (.ofNat plan.total)⟩] system between →
      Heard plan.ends plan.giver [] between after → plan.Spoken after :=
    fun _ _ => spoken_of_heard h
  rw [hg] at hhosts hdata hgives hack hparcels hspoken
  obtain ⟨htaker, connection, -, hdisk, hconn⟩ :=
    server_hears plan.ports (.data _ _) hhosts hparcels hdata
  have hparcels' := htaker.parcels
  rw [ship_fits _ _ _ (Packet.ack_fits _)] at hparcels'
  obtain ⟨hgiver, hsettle⟩ := client_hears plan.ports (.ack _) (htaker.other.hosts gdisk grun hgives) trivial
    (fun h => by cases h) hparcels' hack
  have hover : Connection.settle disk' connection.file connection.created next =
      (disk', { state := .ended (.ok ()), file := connection.file, created := connection.created }) := by
    simp only [Connection.settle, hreceived.stage]
  rw [hover] at hdisk hconn
  have hending : ((system.step plan.ends plan.ports plan.number).client).ending = .keep := by
    rw [htaker.other.2, h.ending, hkeep]
  have hquit : Client.settle gdisk { (system.step plan.ends plan.ports plan.number).client with
      run := gnext, requesting := false } =
      (gdisk, { run := gnext, requesting := false, ending := .keep }) := by
    simp only [Client.settle, hstage, hending, Client.Ending.apply]
    rw [← hstage]
  rw [hquit] at hsettle
  obtain ⟨-, hclient⟩ := Prod.mk.inj hsettle
  have hclient' : (plan.run 2 system).client = { run := gnext, requesting := false, ending := .keep } :=
    hclient
  refine ⟨disk', next, hreceived, hspoken _ _ htaker hgiver, hgiver.other.1.trans hdisk,
    ⟨_, (congrArg (fun s => s.connections[plan.number]?) hgiver.other.2).trans hconn, rfl⟩, ?_, ?_⟩
  · rw [hclient', Client.result?, hstage]
  · rw [hclient']
    exact hsender

end TransferPlan

end OrderedSystem

end Tftp
