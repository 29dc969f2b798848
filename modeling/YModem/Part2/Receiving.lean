import YModem.Part2.Written
import YModem.Session.Copy

/-!
# What the receiver of Part 2 answers

`receiveFiles` at each of its reads, for the messages of a batch that come in their order: what it
answers, and what the files hold.
-/

namespace YModem.Part2

open YModem.Lib YModem.Peer YModem.SmartState
open YModem.Sender (Blk File filename lastStatBlk)
open YModem.Session (Sendable)

def responsesOf : Call → List UInt8
  | .sendByte byte => [byte]
  | .cans => [CAN, CAN]
  | .creat _ _ | .write _ _ | .close _ _ => []

def responses (calls : List Call) : List UInt8 := calls.flatMap responsesOf

@[simp] theorem responses_append (calls new : List Call) :
    responses (calls ++ new) = responses calls ++ responses new := List.flatMap_append

namespace ReceiverY

/-- The receiver waits at the read `w` with `n` files behind it. -/
structure Waiting (n : Nat) (w : Wait) (r : ReceiverY) : Prop where
  wait : r.wait = w
  NCGbyte : r.m_NCGbyte = NCG
  result : r.result = doneText n

/-- A file is open. -/
structure Filling (n : Nat) (w : Wait) (fd : Int) (r : ReceiverY) : Prop where
  waiting : Waiting n w r
  transferringFileD : r.transferringFileD = fd
  opened : -1 < fd

/-- The reads deliver their bytes, the receiver answers `out` and is left as `P` says. -/
def Goes (reads : List (Env × List UInt8)) (out : List UInt8) (P : ReceiverY → Prop) (r : ReceiverY) :
    Prop :=
  ∃ r', r.receiveFiles reads = .ok r' ∧ P r' ∧ responses r'.calls = responses r.calls ++ out

section Steps

variable {env : Env} {r r' : ReceiverY} {n : Nat} {fd : Int} {f : File} {rest : List UInt8}

/-- What `getRestBlk` leaves alone. -/
structure SameButFlags (r r' : ReceiverY) : Prop where
  m_rcvBlk : r'.m_rcvBlk = r.m_rcvBlk
  calls : r'.calls = r.calls
  NCGbyte : r'.m_NCGbyte = r.m_NCGbyte
  result : r'.result = r.result
  transferringFileD : r'.transferringFileD = r.transferringFileD

theorem judgeBlk_same (r : ReceiverY) : SameButFlags r r.judgeBlk := by
  unfold judgeBlk
  dsimp only
  split_ifs <;> exact ⟨rfl, rfl, rfl, rfl, rfl⟩

/-- An SOH and the rest of a block, at the two reads in front of a file. -/
theorem stat_reads (h : Waiting n .soh r) (hlen : rest.length = REST_BLK_SZ_CRC) :
    ∃ g : ReceiverY, g.m_rcvBlk.val = SOH :: rest ∧ g.calls = r.calls ∧ g.m_NCGbyte = NCG ∧
      g.result = doneText n ∧ r.receiveFiles [(env, [SOH]), (env, rest)] =
        g.checkForAnotherFile.fileAnnounced env := by
  obtain ⟨blk₁, old, hv₁, hread⟩ := readFirst_eq r SOH
  obtain ⟨blk₂, hv₂, hrest⟩ := @getRestBlk_eq
    { r with m_rcvBlk := blk₁, wait := .restOfStat } rest SOH old hv₁ hlen
  have hsame := judgeBlk_same { r with m_rcvBlk := blk₂, wait := .restOfStat }
  have hfirst : r.proceed env [SOH] = .ok { r with m_rcvBlk := blk₁, wait := .restOfStat } := by
    rw [proceed, h.wait]
    simp only [hread, ok_bind]
    rfl
  refine ⟨_, by rw [hsame.m_rcvBlk]; exact hv₂, hsame.calls, hsame.NCGbyte.trans h.NCGbyte,
    hsame.result.trans h.result, ?_⟩
  rw [receiveFiles, hfirst, ok_bind, receiveFiles, proceed]
  simp only [hrest, ok_bind]
  cases fileAnnounced env _ with
  | error x => rfl
  | ok r' => rfl

/-- The name in a stat block. -/
theorem cString_stat (f : File) : cString ((f.blk 0).tail.drop 2) = some (filename f.name) := by
  have hsplit : (f.blk 0).tail.drop 2 = filename f.name ++ 0 :: (decimal f.contents.length ++ [0] ++
      (List.replicate (CHUNK_SZ - (filename f.name ++ 0 :: (decimal f.contents.length ++ [0])).length) 0 ++
        crc16ns (statChunk (filename f.name) (decimal f.contents.length ++ [0])))) := by
    simp [File.blk, restOf, statChunk, padded]
  rw [hsplit]
  exact cString_append_nul (Sender.nul_notMem_filename f.nul_notMem)

/-- A stat block with a name. Nothing else in it matters. -/
theorem Waiting.stat {name : List UInt8} (h : Waiting n .soh r) (hlen : rest.length = REST_BLK_SZ_CRC)
    (hname : cString (rest.drop 2) = some name) (hne : name ≠ []) (hcreat : -1 < env.creat) :
    r.Goes [(env, [SOH]), (env, rest)] [ACK, NCG] fun r' =>
      Filling n .first env.creat r' ∧ outputs r'.calls = ⟨name, env.creat, []⟩ :: outputs r.calls := by
  obtain ⟨g, hg, hcalls, hncg, hresult, hreads⟩ := @stat_reads env r n rest h hlen
  have hname' : cString (g.m_rcvBlk.val.drop DATA_POS) = some name := by
    rw [hg]
    exact hname
  have hagain : g.byte DATA_POS ≠ 0 := by
    have hfirst := getD_zero_of_cString hname hne
    rw [byte, hg]
    simpa [List.getD_eq_getElem?_getD] using hfirst
  have hopen : ¬ env.creat = -1 := by omega
  let r' : ReceiverY :=
    { g.checkForAnotherFile.log (.creat name env.creat) with transferringFileD := env.creat }
  have hfile : g.checkForAnotherFile.openFileForTransfer env = .ok r' := by
    rw [openFileForTransfer, show g.checkForAnotherFile.m_rcvBlk = g.m_rcvBlk from rfl, hname']
  have hannounced : g.checkForAnotherFile.fileAnnounced env =
      .ok { (r'.sendByte ACK).sendByte r'.m_NCGbyte with wait := .first } := by
    rw [fileAnnounced, if_pos (show g.checkForAnotherFile.m_anotherFile ≠ 0 from hagain), hfile, ok_bind,
      if_neg (show ¬ r'.transferringFileD = -1 from hopen)]
    rfl
  refine ⟨_, hreads.trans hannounced, ⟨⟨⟨rfl, hncg, hresult⟩, rfl, hcreat⟩, ?_⟩, ?_⟩
  · show outputs (g.calls ++ [_] ++ [_] ++ [_]) = _
    simp [hcalls, outputs_append, addCall, hopen]
  · show responses (g.calls ++ [_] ++ [_] ++ [_]) = _
    simp only [hcalls, responses_append, List.append_assoc]
    rw [show r'.m_NCGbyte = NCG from hncg]
    rfl

/-- A stat block without a name ends a batch. -/
theorem Waiting.last (h : Waiting n .soh r) (hlen : rest.length = REST_BLK_SZ_CRC)
    (hname : cString (rest.drop 2) = some []) :
    r.Goes [(env, [SOH]), (env, rest)] [ACK] fun r' =>
      (r'.wait = .returned ∧ r'.result = ((doneText n).dropEnd 2).copy) ∧
        outputs r'.calls = outputs r.calls := by
  obtain ⟨g, hg, hcalls, -, hresult, hreads⟩ := @stat_reads env r n rest h hlen
  have hnone : g.byte DATA_POS = 0 := by
    have hfirst := getD_zero_of_cString_nil hname
    rw [byte, hg]
    simpa [List.getD_eq_getElem?_getD] using hfirst
  have hannounced : g.checkForAnotherFile.fileAnnounced env =
      .ok { g.checkForAnotherFile.sendByte ACK with
        result := (g.result.dropEnd 2).copy, wait := .returned } :=
    if_neg (not_not.mpr hnone)
  refine ⟨_, hreads.trans hannounced, ⟨⟨rfl, by rw [hresult]⟩, ?_⟩, ?_⟩
  · show outputs (g.calls ++ [.sendByte ACK]) = _
    simp [hcalls, outputs_append, addCall]
  · show responses (g.calls ++ [.sendByte ACK]) = _
    rw [hcalls, responses_append]
    rfl

theorem answerBlk_same (r : ReceiverY) :
    r.answerBlk.m_NCGbyte = r.m_NCGbyte ∧ r.answerBlk.result = r.result := by
  unfold answerBlk
  split_ifs <;> exact ⟨rfl, rfl⟩

/-- What a read of a data block leaves alone. -/
theorem blk_same (h : Filling n .first fd r) (hlen : rest.length = REST_BLK_SZ_CRC)
    (hread : r.receiveFiles [(env, [SOH]), (env, rest)] = .ok r') :
    r'.m_NCGbyte = r.m_NCGbyte ∧ r'.result = r.result := by
  obtain ⟨blk₁, old, hv₁, hread₁⟩ := readFirst_eq r SOH
  obtain ⟨blk₂, -, hrest⟩ := @getRestBlk_eq
    { r with m_rcvBlk := blk₁, wait := .restOfBlk } rest SOH old hv₁ hlen
  have hsoh : byte { r with m_rcvBlk := blk₁ } 0 = SOH := by
    rw [byte, hv₁]
    rfl
  have hfirst : r.proceed env [SOH] = .ok { r with m_rcvBlk := blk₁, wait := .restOfBlk } := by
    rw [proceed, h.waiting.wait]
    simp only [hread₁, ok_bind, if_pos hsoh]
    rfl
  have hjudge := judgeBlk_same { r with m_rcvBlk := blk₂, wait := .restOfBlk }
  have hanswer := answerBlk_same (judgeBlk { r with m_rcvBlk := blk₂, wait := .restOfBlk })
  rw [receiveFiles, hfirst, ok_bind, receiveFiles, proceed] at hread
  simp only [hrest, ok_bind] at hread
  cases hread
  exact ⟨hanswer.1.trans hjudge.NCGbyte, hanswer.2.trans hjudge.result⟩

/-- A copy of a data block: a good one is written, whatever its number is. -/
theorem Filling.blk (h : Filling n .first fd r) (hlen : rest.length = REST_BLK_SZ_CRC) {o : OutFile}
    {outs : List OutFile} (ho : o.fd = fd) (houts : outputs r.calls = o :: outs) :
    r.Goes [(env, [SOH]), (env, rest)] (if Intact rest then [ACK] else [NAK]) fun r' =>
      Filling n .first fd r' ∧ outputs r'.calls =
        { o with data := o.data ++ if Intact rest then payloadOf rest else [] } :: outs := by
  have hr : Receiving fd r := ⟨h.waiting.wait, h.transferringFileD⟩
  obtain ⟨r', hread, hr', hcalls⟩ := @copy_read env r fd rest hr hlen
  obtain ⟨hncg, hresult⟩ := blk_same h hlen hread
  refine ⟨r', hread, ⟨⟨⟨hr'.wait, hncg.trans h.waiting.NCGbyte, hresult.trans h.waiting.result⟩,
    hr'.transferringFileD, h.opened⟩, ?_⟩, ?_⟩
  · rw [hcalls]
    split_ifs with hi
    · exact outputs_push houts ho
    · rw [outputs_append, houts, List.append_nil]
      rfl
  · rw [hcalls, responses_append]
    split_ifs <;> rfl

theorem receiveFiles_single (env : Env) (bytes : List UInt8) (r : ReceiverY) :
    r.receiveFiles [(env, bytes)] = r.proceed env bytes := by
  rw [receiveFiles]
  cases r.proceed env bytes <;> rfl

/-- The first EOT. -/
theorem Filling.firstEot (h : Filling n .first fd r) :
    r.Goes [(env, [EOT])] [NAK] fun r' =>
      Filling n .anotherEot fd r' ∧ outputs r'.calls = outputs r.calls := by
  obtain ⟨blk, old, hv, hread⟩ := readFirst_eq r EOT
  have hsoh : ¬ byte { r with m_rcvBlk := blk } 0 = SOH := by
    rw [byte, hv]
    show ¬ EOT = SOH
    decide
  have hproceed : r.proceed env [EOT] =
      .ok { sendByte { r with m_rcvBlk := blk } NAK with wait := .anotherEot } := by
    rw [proceed, h.waiting.wait]
    simp only [hread, ok_bind, if_neg hsoh]
    rfl
  refine ⟨_, (receiveFiles_single _ _ _).trans hproceed,
    ⟨⟨⟨rfl, h.waiting.NCGbyte, h.waiting.result⟩, h.transferringFileD, h.opened⟩, ?_⟩, ?_⟩
  · exact outputs_append r.calls [.sendByte NAK]
  · exact responses_append r.calls [.sendByte NAK]

theorem proceed_anotherEot (hw : r.wait = .anotherEot) (env : Env) (bytes : List UInt8) :
    r.proceed env bytes = r.readFirst bytes >>= fun t => .ok (t.endFile env).askForFile := by
  cases r
  cases hw
  rfl

/-- The second EOT closes the file. -/
theorem Filling.secondEot (h : Filling n .anotherEot fd r) (hclose : env.close = 0) :
    r.Goes [(env, [EOT])] [ACK, NCG] fun r' =>
      Waiting (n + 1) .soh r' ∧ outputs r'.calls = outputs r.calls := by
  obtain ⟨blk, old, -, hread⟩ := readFirst_eq r EOT
  have hfd : r.transferringFileD > -1 := by
    rw [h.transferringFileD]
    exact h.opened
  have hproceed : r.proceed env [EOT] =
      .ok (endFile env { r with m_rcvBlk := blk }).askForFile := by
    rw [proceed_anotherEot h.waiting.wait, hread]
    rfl
  have hend : endFile env { r with m_rcvBlk := blk } =
      { r with
        m_rcvBlk := blk, m_closeProb := env.close, m_numLastGoodBlk := 255, transferringFileD := -1
        calls := r.calls ++ [.close r.transferringFileD env.close] ++ [.sendByte ACK]
        result := r.result ++ "Done, " } := by
    simp [endFile, closeTransferredFile, hfd, hclose, sendByte, log]
  refine ⟨_, (receiveFiles_single _ _ _).trans hproceed, ⟨?_, ?_⟩, ?_⟩
  · rw [hend]
    exact ⟨rfl, h.waiting.NCGbyte, congrArg (· ++ "Done, ") h.waiting.result⟩
  · exact outputs_endFile env _
  · rw [hend]
    show responses (r.calls ++ [_] ++ [_] ++ [.sendByte r.m_NCGbyte]) = _
    rw [h.waiting.NCGbyte]
    simp [responses, responsesOf]

end Steps

end ReceiverY

end YModem.Part2
