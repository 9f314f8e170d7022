/-
Capture files of the tool.  It copies the headers of a file that was sent, and
puts the payloads of the packets that come back behind them.  If the packets
come back as they were sent, the copy is the file as far as they go.
-/
import Barley.ChanDelivery
import Barley.Framed

namespace Barley

open Framed

/-- The size of `struct pcap_file_header`. -/
def sizeofPcapFileHeader : Nat := 24

/-- The size of `struct pcap_pkthdr`. -/
def sizeofPcapPkthdr : Nat := 16

/-- `caplen` of a `struct pcap_pkthdr`. -/
def pcapCaplen (pktHeader : List UInt8) : Nat :=
  Bytes.load .little ((pktHeader.drop 8).take 4)

/-- `pcap_file_struct`: what is left to read of the one file, and what has been
written to the other. -/
structure PcapFileStruct where
  infd : List UInt8
  outfd : List UInt8
deriving DecidableEq

/-- `read` into a structure that has been cleared, which gets less at the end of
the file. -/
def readCleared (size : Nat) (file : List UInt8) : List UInt8 :=
  file.take size ++ List.replicate (size - file.length) 0

/-- `pcap_file_init`.  There is no result for a file without a header, which it
closes and then goes on with. -/
def pcapFileInit (inFile : List UInt8) : Option PcapFileStruct :=
  if inFile.length < sizeofPcapFileHeader then none
  else some {
    infd := inFile.drop sizeofPcapFileHeader
    outfd := inFile.take sizeofPcapFileHeader }

/-- `pcap_file_add_packet`.  There is no result when it would write what lies
behind the array. -/
def pcapFileAddPacket (fileDes : PcapFileStruct) (buff : List UInt8) :
    Option PcapFileStruct :=
  let pktHeader := readCleared sizeofPcapPkthdr fileDes.infd
  let packetLen := pcapCaplen pktHeader
  if buff.length < packetLen then none
  else some {
    infd := fileDes.infd.drop (sizeofPcapPkthdr + packetLen)
    outfd := fileDes.outfd ++ pktHeader ++ buff.take packetLen }

/-- What `pr_udp_data` and `pr_rule_data` do with what they take from the ring;
`payload` is the array of a packet. -/
def prDataStep {R : Type} (payload : R → List UInt8)
    (fileDes : PcapFileStruct) (result : Option R) : Option PcapFileStruct :=
  match result with
  -- counted in `rx_errors`, and nothing is written
  | none => some fileDes
  | some simplePkt => pcapFileAddPacket fileDes (payload simplePkt)

/-- What `pr_udp_data` and `pr_rule_data` make of all that they take. -/
def prData {R : Type} (payload : R → List UInt8) (fileDes : PcapFileStruct)
    (received : List (Option R)) : Option PcapFileStruct :=
  received.foldlM (prDataStep payload) fileDes

/-- The capture of a file that was sent. -/
def captureFile {R : Type} (payload : R → List UInt8) (inFile : List UInt8)
    (received : List (Option R)) : Option PcapFileStruct :=
  (pcapFileInit inFile).bind fun fileDes => prData payload fileDes received

/-- A packet in a capture file. -/
abbrev PcapRecord := Record (B := UInt8) sizeofPcapPkthdr pcapCaplen

section Copies

variable {R : Type} {payload : R → List UInt8}

/-- The array of a packet begins with the data of the record. -/
def Brings (payload : R → List UInt8) (simplePkt : R) (record : PcapRecord) :
    Prop :=
  record.data.IsPrefix (payload simplePkt)

theorem pcapFileAddPacket_record {buff : List UInt8} (record : PcapRecord)
    (hbuff : record.data.IsPrefix buff) (rest outfd : List UInt8) :
    pcapFileAddPacket ⟨record.bytes ++ rest, outfd⟩ buff =
      some ⟨rest, outfd ++ record.bytes⟩ := by
  have hsize := record.size_le rest
  have hheader : readCleared sizeofPcapPkthdr (record.bytes ++ rest) =
      record.header := by
    rw [readCleared, record.take_bytes, Nat.sub_eq_zero_of_le hsize]
    exact List.append_nil _
  have hdata : buff.take (pcapCaplen record.header) = record.data := by
    rw [← record.length_data]
    exact (List.prefix_iff_eq_take.mp hbuff).symm
  have hlength := hbuff.length_le
  rw [record.length_data] at hlength
  simp only [pcapFileAddPacket, hheader]
  rw [if_neg (Nat.not_lt.mpr hlength), record.drop_bytes, hdata, Record.bytes,
    List.append_assoc]

/-- Packets that bring the data of the records copy the records. -/
theorem prData_records {received : List R} {records : List PcapRecord}
    (hbrings : List.Forall₂ (Brings payload) received records)
    (rest outfd : List UInt8) :
    prData payload ⟨bytes records ++ rest, outfd⟩ (received.map some) =
      some ⟨rest, outfd ++ bytes records⟩ := by
  induction hbrings generalizing outfd with
  | nil =>
      rw [prData]
      simp [bytes]
  | @cons simplePkt record received records hfirst hothers ih =>
      have hadd : prDataStep payload
          ⟨record.bytes ++ (bytes records ++ rest), outfd⟩ (some simplePkt) =
            some ⟨bytes records ++ rest, outfd ++ record.bytes⟩ :=
        pcapFileAddPacket_record record hfirst (bytes records ++ rest) outfd
      rw [prData, List.map_cons, List.foldlM_cons, bytes_cons,
        List.append_assoc, hadd]
      rw [← List.append_assoc outfd]
      exact ih (outfd ++ record.bytes)

/-- The capture of a file whose records have come back. -/
theorem captureFile_records {header : List UInt8}
    (hheader : header.length = sizeofPcapFileHeader) {received : List R}
    {records : List PcapRecord}
    (hbrings : List.Forall₂ (Brings payload) received records)
    (rest : List UInt8) :
    captureFile payload (header ++ (bytes records ++ rest))
        (received.map some) =
      some ⟨rest, header ++ bytes records⟩ := by
  have hinit : pcapFileInit (header ++ (bytes records ++ rest)) =
      some ⟨bytes records ++ rest, header⟩ := by
    have hlength : ¬ (header ++ (bytes records ++ rest)).length <
        sizeofPcapFileHeader := by
      rw [List.length_append, hheader]
      omega
    rw [pcapFileInit, if_neg hlength, List.drop_left' hheader,
      List.take_left' hheader]
  rw [captureFile, hinit]
  exact prData_records hbrings rest header

end Copies

section Channel

variable {P R : Type} {lim : DmaLimits} {format : ChanFormat P R}
  {st : FlowState Unit P R}

/-- What a single core has sent comes back in its order. -/
theorem FlowDelivers.received_eq (h : FlowDelivers lim format st)
    (hwritten : st.AllWritten) :
    st.received =
      ((st.sent ()).take st.received.length).map (some ∘ format.received) := by
  have hall : (st.posted.filter fun entry => entry.core = ()) = st.posted := by
    apply List.filter_eq_self.mpr
    intro entry _
    exact decide_eq_true rfl
  have hsent := h.sent ()
  have hlength := h.onTheWay
  have hle : st.received.length ≤ (st.posted.map Posted.packet).length := by
    rw [List.length_map]
    omega
  rw [hall] at hsent
  rw [← hsent, List.take_append_of_le_length hle, ← List.map_take,
    List.map_map]
  exact h.received_eq_posted hwritten

/-- The capture has the records that have come back, and goes on with the
others. -/
structure Captured (payload : R → List UInt8) (header : List UInt8)
    (records : List PcapRecord) (rest : List UInt8)
    (st : FlowState Unit P R) : Prop where
  copied : captureFile payload (header ++ (bytes records ++ rest))
      st.received =
    some {
      infd := bytes (records.drop st.received.length) ++ rest
      outfd := header ++ bytes (records.take st.received.length) }

theorem FlowDelivers.captured (h : FlowDelivers lim format st)
    (hwritten : st.AllWritten) {payload : R → List UInt8} {header : List UInt8}
    (hheader : header.length = sizeofPcapFileHeader)
    {records : List PcapRecord}
    (hbrings : List.Forall₂ (fun packet record =>
      Brings payload (format.received packet) record) (st.sent ()) records)
    (rest : List UInt8) : Captured payload header records rest st where
  copied := by
    have htaken : List.Forall₂ (Brings payload)
        (((st.sent ()).take st.received.length).map format.received)
        (records.take st.received.length) :=
      List.forall₂_map_left_iff.mpr (List.forall₂_take _ hbrings)
    have hcopy := captureFile_records hheader htaken
      (bytes (records.drop st.received.length) ++ rest)
    rw [List.map_map, ← h.received_eq hwritten, ← List.append_assoc (bytes _),
      ← bytes_append, List.take_append_drop] at hcopy
    exact hcopy

end Channel

/-- The packets are those of the records. -/
def SentFrom {P : Type} (payload : P → List UInt8) (sent : List P)
    (records : List PcapRecord) : Prop :=
  sent.map payload = records.map Record.data

theorem SentFrom.brings {P R : Type} {sentPayload : P → List UInt8}
    {payload : R → List UInt8} {received : P → R} {sent : List P}
    {records : List PcapRecord} (h : SentFrom sentPayload sent records)
    (hreceived : ∀ packet,
      (sentPayload packet).IsPrefix (payload (received packet))) :
    List.Forall₂ (fun packet record => Brings payload (received packet) record)
      sent records := by
  induction sent generalizing records with
  | nil =>
      cases records with
      | nil => exact .nil
      | cons record records => cases h
  | cons packet sent ih =>
      cases records with
      | nil => cases h
      | cons record records =>
          obtain ⟨hfirst, hothers⟩ := List.cons.inj h
          refine .cons ?_ (ih hothers)
          show record.data.IsPrefix _
          rw [← hfirst]
          exact hreceived packet

theorem FlowDelivers.capturedSent {P R : Type} {lim : DmaLimits}
    {format : ChanFormat P R} {st : FlowState Unit P R}
    (h : FlowDelivers lim format st) (hwritten : st.AllWritten)
    {sentPayload : P → List UInt8}
    {payload : R → List UInt8} {header : List UInt8}
    (hheader : header.length = sizeofPcapFileHeader)
    {records : List PcapRecord}
    (hsent : SentFrom sentPayload (st.sent ()) records)
    (hreceived : ∀ packet,
      (sentPayload packet).IsPrefix (payload (format.received packet)))
    {rest : List UInt8} : Captured payload header records rest st :=
  h.captured hwritten hheader (hsent.brings hreceived) rest

/-- One core sends the packets of a file, and the tool captures what comes out
of a channel that the driver has set up.  In every state that the core, the DMA
and the host can bring about, in whatever order of their steps, the capture is
the file up to the packets that have come back, as long as no block has been
completed without its packet. -/
theorem frcdrvChansInit_captures (lim : DmaLimits)
    {alloc : Nat → Option Nat} (hpages : PagesApart alloc)
    {chans : FrcdrvChans} (hinit : frcdrvChansInit alloc = some chans)
    (mem : Nat → UInt8) (cell : FifoCell) {header : List UInt8}
    (hheader : header.length = sizeofPcapFileHeader)
    (records : List PcapRecord) (rest : List UInt8) :
    ∃ udp rule, chans.udp.avail = some udp ∧ chans.rule.avail = some rule ∧
      (∀ st, FlowReachable lim udpFormat
          (FlowState.start Unit _ _ udp mem cell) st → st.Few →
        st.AllWritten → SentFrom (·.val.payload) (st.sent ()) records →
          Captured FrcSimplePkt.payload header records rest st) ∧
      (∀ st, FlowReachable lim ruleFormat
          (FlowState.start Unit _ _ rule mem cell) st → st.Few →
        st.AllWritten → SentFrom (·.val.1.payload) (st.sent ()) records →
          Captured FrcSimpleRulePkt.payload header records rest st) := by
  have hsimple := ChanKind.simplePackage_lawful
  obtain ⟨used, used', used'', hudpSetup, hruleSetup, -⟩ :=
    frcdrvChansInit_setups.mp hinit
  obtain ⟨-, hlength, udp, hudp⟩ :=
    chanSetup_ready hsimple (Nat.le_refl _) hudpSetup
  obtain ⟨-, hlength', rule, hrule⟩ :=
    chanSetup_ready hsimple (Nat.le_refl _) hruleSetup
  refine ⟨udp, rule, hudp.avail, hrule.avail, ?_, ?_⟩
  · intro st hreach hfew hwritten hsent
    obtain ⟨hdelivers, -⟩ :=
      hudp.delivers hpages hlength udpFormat_lawful hreach hfew
    apply hdelivers.capturedSent hwritten hheader hsent
    intro packet
    exact List.prefix_append _ _
  · intro st hreach hfew hwritten hsent
    obtain ⟨hdelivers, -⟩ :=
      hrule.delivers hpages hlength' ruleFormat_lawful hreach hfew
    apply hdelivers.capturedSent hwritten hheader hsent
    intro packet
    exact List.prefix_append _ _

def emptyRecord : PcapRecord :=
  ⟨List.replicate 16 0, [], List.length_replicate, rfl⟩

def threeBytes : PcapRecord :=
  ⟨[0, 0, 0, 0, 0, 0, 0, 0, 3, 0, 0, 0, 3, 0, 0, 0], [1, 2, 3], rfl, rfl⟩

/-- The packet of the record of three bytes has come back; the tool stands
before the empty record. -/
theorem frcdrvChansInit_captures_three :
    ∃ chans udp st, frcdrvChansInit consecutivePages = some chans ∧
      chans.udp.avail = some udp ∧
      FlowReachable ⟨15, by decide⟩ udpFormat (FlowState.start Unit
        SmallPacket FrcSimplePkt udp (fun _ => 0) ⟨0, []⟩) st ∧
      st.received.length = 1 ∧
      Captured FrcSimplePkt.payload (List.replicate 24 0) [threeBytes]
        emptyRecord.bytes st := by
  obtain ⟨chans, hinit⟩ := Option.isSome_iff_exists.mp
    (frcdrvChansInit_isSome_iff.mpr consecutivePages_ne_none)
  obtain ⟨udp, -, havail, -, hudp, -⟩ := frcdrvChansInit_captures
    ⟨15, by decide⟩ pagesApart_consecutivePages hinit (fun _ => 0) ⟨0, []⟩
    List.length_replicate [threeBytes] emptyRecord.bytes
  obtain ⟨_, hsame, hridx, hwidx⟩ :=
    frcdrvChansInit_udp pagesApart_consecutivePages hinit
  obtain rfl := Option.some_inj.mp (havail.symm.trans hsame)
  obtain ⟨next, hadd, hnum⟩ :=
    udpFormat_lawful.accepted SmallPacket.three ⟨0, []⟩
  have hlwm : 1 ≤ DmaLimits.chanPostLwm ⟨15, by decide⟩ := by decide
  obtain ⟨st, hreach, hposted, hlength, hsent, htransfers⟩ :=
    FlowReachable.through (fun _ => 0) hridx hwidx hlwm () hadd hnum
  refine ⟨chans, udp, st, hinit, havail, hreach, hlength, hudp st hreach
    (.of_through hsent htransfers) ?_ ?_⟩
  · simp [FlowState.AllWritten, hposted]
  · rw [hsent]
    rfl

end Barley
