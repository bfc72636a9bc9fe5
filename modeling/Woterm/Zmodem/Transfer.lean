import Woterm.Zmodem.Receiver

/-!
What `lsz` writes in one pass over a file, as `lrz` reads it. The sender does not listen before its `ZEOF`, so that
nothing depends on what the receiver answers.
-/

namespace Woterm.Zmodem.Transfer
open Woterm.Qt Woterm.Zmodem.Line Woterm.Zmodem.Header Woterm.Zmodem.Data
open Woterm.Lib (Reaches)
open Woterm.Zmodem.Sender (Listening Command Written perform limits MAX_BLOCK ZEOF Tx)
open Woterm.Zmodem.Receiver (Setting HeaderCode PacketCodes)

theorem perform_header (s : Sending) (l : Listening) (agreed : l.ctlesc = true → s.escaping.Full)
    (quick : s.nulls = 0) (w : Written) (type : UInt8) (hdr : Hdr) :
    ∃ code w', perform s w (.header ⟨true, type, hdr⟩) = .ok w' ∧ w'.crc32t = s.fcs32 ∧
      w'.out.bytes = w.out.bytes ++ code ∧ HeaderCode l s.frameind type hdr code := by
  obtain ⟨code, written, coded⟩ := Receiver.headerCode_zsbhdr s l agreed quick w.out type hdr
  exact ⟨code, _, rfl, rfl, written, coded⟩

theorem perform_packets (s : Sending) (l : Listening) (agreed : l.ctlesc = true → s.escaping.Full) (w : Written)
    (checks : w.crc32t = s.fcs32) (packets : List Packet)
    (fine : ∀ packet ∈ packets, (Command.data packet).Fine s.fcs32) :
    ∃ code w', (packets.map Command.data).foldlM (perform s) w = .ok w' ∧
      w'.out.bytes = w.out.bytes ++ code ∧ PacketCodes l s.frameind packets code := by
  induction packets generalizing w with
  | nil => exact ⟨[], w, rfl, (List.append_nil _).symm, .nil⟩
  | cons packet packets ih =>
    obtain ⟨small, filled⟩ := fine packet List.mem_cons_self
    have check : checkOf (s.frameind = .bin32) = checkOf s.fcs32 := by
      obtain ⟨_, fcs32, _⟩ := s
      cases fcs32 <;> rfl
    obtain ⟨code, written, coded⟩ := Receiver.packetCode_sendPacket s.escaping l agreed s.frameind w.out packet small
    have sent := ZSDATA_eq s.escaping s.fcs32 w.out packet.buf [] packet.frameend filled
    rw [List.append_nil, ← check] at sent
    obtain ⟨codes, last, done, lastWritten, rest⟩ := ih
      { w with out := sendPacket s.escaping (checkOf (s.frameind = .bin32)) w.out packet.buf packet.frameend } checks
      fun other member => fine other (List.mem_cons_of_mem packet member)
    refine ⟨code ++ codes, last, ?_, ?_, .cons coded rest⟩
    · rw [List.map_cons, List.foldlM_cons, perform, checks, sent]
      exact checks ▸ done
    · rw [lastWritten, ← List.append_assoc]
      exact congrArg (· ++ codes) written

/-- With the 32 bit check, a file of less than 4 GiB arrives, from its start or from where an earlier transfer
stopped. -/
theorem lsz_lrz (s : Sending) (long : s.fcs32 = true) (quick : s.nulls = 0) (setting : Setting)
    (binary : setting.thisbinary = true) (closes : setting.closes = true) (patient : 0 < setting.listening.garbage)
    (agreed : setting.listening.ctlesc = true → s.escaping.Full) (l : Listening) (file : QByteArray)
    (low : file.length < 2 ^ 32) (pos : Nat) (within : pos ≤ file.length) (tx : Tx) (fresh : tx.out = [])
    (unseen : tx.eofSeen = false) (valid : tx.lengths.Valid MAX_BLOCK) (w : Written) (silent : w.out.bytes = []) :
    ∃ tx' w' rx, Reaches (Sender.step s.fcs32 limits l file) (Sender.begin tx pos) (.eof, tx') ∧
      (Sender.sendHeader tx' ZEOF).out.foldlM (perform s) w = .ok w' ∧
      Reaches (Receiver.step setting) (Receiver.begin (file.take pos) [] w'.out.bytes) (.done .zeof, rx) ∧
      rx.file = file := by
  have once : Sender.Once s.fcs32 file pos _ _ := Sender.Once.begin file pos tx fresh unseen valid
  obtain ⟨packets, after, reached, out, stream, data, _⟩ :=
    (Sender.header_reaches_eof file pos (by omega) (by omega) l _ once).resolve_right (by rw [long]; nofun)
  have ended := once.reaches (by omega) (by omega) l reached
  have place : after.bytesSent = file.length := by
    have all := Sender.Once.finished ended (by
      by_contra running
      rcases (Sender.Once.streaming ended (by simpa using running)).2 with same | same | same <;> cases same)
    have bound : after.offset ≤ max pos file.length := ended.within
    have sent : after.bytesSent = after.offset := ended.bytesSent
    change file.length ≤ after.offset at all
    omega
  -- the header of the data, the data and the header of the end, one after the other
  obtain ⟨header, one, first, checks, oneBytes, opens⟩ :=
    perform_header s setting.listening agreed quick w ZDATA (stohdr pos)
  obtain ⟨code, two, second, twoBytes, coded⟩ := perform_packets s setting.listening agreed one checks packets
    (fun packet member => ended.fine (.data packet) (by
      change Command.data packet ∈ after.out
      rw [out]
      exact List.mem_append_right _ (List.mem_cons_of_mem _ (List.mem_map_of_mem member))))
  obtain ⟨eof, three, third, _, threeBytes, ends⟩ :=
    perform_header s setting.listening agreed quick two ZEOF (stohdr after.bytesSent)
  rw [place] at ends
  have bytes : three.out.bytes = [] ++ (header ++ (code ++ eof)) := by
    rw [threeBytes, twoBytes, oneBytes, silent]
    simp
  have length : (file.take pos).length = pos := by rw [List.length_take, Nat.min_eq_left within]
  obtain ⟨rx, arrived, whole⟩ := Receiver.rzfile_pass setting binary closes file low
    (Receiver.begin (file.take pos) [] three.out.bytes).2 (by rw [Receiver.begin, length]; exact opens) stream coded
    (by rw [Receiver.begin, length]; exact data) ends (List.length_take_le' _ _) [] 0 (.nil _) patient
    (by rw [Receiver.begin, length]) rfl bytes
  refine ⟨after, three, rx, reached, ?_, arrived, whole⟩
  rw [Sender.sendHeader, out, show (Sender.begin tx pos).2.out = [] from fresh, List.nil_append, List.cons_append,
    List.foldlM_cons]
  change (perform s w (.header ⟨true, ZDATA, stohdr pos⟩)).bind _ = _
  rw [first, Except.bind, List.foldlM_append, second]
  change List.foldlM (perform s) two [.header ⟨true, ZEOF, stohdr after.bytesSent⟩] = _
  rw [List.foldlM_cons, third]
  rfl

theorem lsz_lrz_resumed :
    ∃ tx' w' rx, Reaches (Sender.step true limits ⟨true, 3800⟩ [24, 17, 13]) (Sender.begin (Sender.initial []) 1)
        (.eof, tx') ∧
      (Sender.sendHeader tx' ZEOF).out.foldlM (perform ⟨⟨true, false⟩, true, 0⟩) ⟨{ lastsent := 0 }, false⟩ = .ok w' ∧
      Reaches (Receiver.step ⟨⟨true, 3800⟩, true, [3], true⟩) (Receiver.begin [24] [] w'.out.bytes) (.done .zeof, rx) ∧
      rx.file = [24, 17, 13] :=
  lsz_lrz ⟨⟨true, false⟩, true, 0⟩ rfl rfl ⟨⟨true, 3800⟩, true, [3], true⟩ rfl rfl (by decide) (fun _ => by decide)
    ⟨true, 3800⟩ [24, 17, 13] (by decide) 1 (by decide) (Sender.initial []) rfl rfl (.inl rfl) ⟨{ lastsent := 0 }, false⟩
    rfl

end Woterm.Zmodem.Transfer
