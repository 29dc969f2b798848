import YModem.Part2.Exchange

/-!
# The stages of a session of Part 2

The medium turns every tenth ACK into a NAK. The sender takes the NAK behind a data block for a
damaged block and sends it again, and the receiver writes it again. Blocks that the medium damages
are answered by NAKs, which are not counted, and come through whole the second time. So the blocks
that are in the files twice are told by the number of the ACKs alone, whichever of them are damaged
on the way.
-/

namespace YModem.Part2

open YModem.Lib YModem.Peer YModem.SmartState
open YModem.Sender (Blk File filename lastStatBlk)
open YModem.Session (Sendable payload payloads)
open SenderY ReceiverY

/-! ## What is written -/

/-- How often a data block is written whose first ACK has `acks` ACKs before it. -/
def copiesAt (acks : Nat) : Nat := if 10 ∣ acks + 1 then 2 else 1

/-- The ACKs behind the first `k` data blocks. -/
def acksBehind (acks : Nat) : Nat → Nat
  | 0 => acks
  | k + 1 => acksBehind acks k + copiesAt (acksBehind acks k)

/-- What the first `k` data blocks leave in the file. -/
def blksWritten (acks : Nat) (f : File) : Nat → List UInt8
  | 0 => []
  | k + 1 => blksWritten acks f k ++
      (List.replicate (copiesAt (acksBehind acks k)) (payload f (k + 1))).flatten

/-- The ACKs behind a file: for the stat block, the data blocks and the second EOT. -/
def acksAfter (acks : Nat) (f : File) : Nat := acksBehind (acks + 1) f.numChunks + 1

/-- The names and contents of the files of a batch. -/
def filesWritten : Nat → List File → List (List UInt8 × List UInt8)
  | _, [] => []
  | acks, f :: files =>
    (filename f.name, blksWritten (acks + 1) f f.numChunks) :: filesWritten (acksAfter acks f) files

theorem filesWritten_append (acks : Nat) (files : List File) (f : File) :
    filesWritten acks (files ++ [f]) = filesWritten acks files ++
      filesWritten (files.foldl acksAfter acks) [f] := by
  induction files generalizing acks with
  | nil => rfl
  | cons g files ih => simp only [List.cons_append, filesWritten, ih, List.foldl_cons]

/-! ## The stages of a session -/

/-- The first `i` files of a batch. -/
def before (files : List (File × Int)) (i : Nat) : List File := (files.take i).map Prod.fst

/-- The ACKs before the stat block of the file number `i`. -/
def acksBefore (files : List (File × Int)) (i : Nat) : Nat := (before files i).foldl acksAfter 0

/-- The file number `i` of a batch. -/
def IsFile (files : List (File × Int)) (i : Nat) (f : File) : Prop := files[i]?.map Prod.fst = some f

/-- The first `i` files have been written. -/
def HasFiles (files : List (File × Int)) (i : Nat) (outs : List OutFile) : Prop :=
  outs.reverse.map (fun o => (o.name, o.data)) = filesWritten 0 (before files i)

/-- The receiver waits for the stat block behind `i` files. -/
structure Announced (files : List (File × Int)) (i : Nat) (r : ReceiverY) : Prop where
  waiting : Waiting i .soh r
  files : HasFiles files i (outputs r.calls)

/-- The receiver has `data` of the file number `i`. -/
structure Copying (files : List (File × Int)) (i : Nat) (f : File) (data : List UInt8) (w : Wait)
    (r : ReceiverY) : Prop where
  opened : ∃ fd o outs, Filling i w fd r ∧ o.fd = fd ∧ outputs r.calls = o :: outs ∧
    HasFiles files i outs ∧ o.name = filename f.name ∧ o.data = data

/-- The moves of a session, with two copies of each block, each of which is damaged once. -/
def sessionLeft : List File → Nat
  | [] => 4
  | f :: files => 16 * f.numChunks + 16 + sessionLeft files

/-- The moves that are left from the stat block of the file number `i` on. -/
def fileLeft (files : List (File × Int)) (i : Nat) : Nat := sessionLeft ((files.drop i).map Prod.fst)

/-- The moves that are left when the first EOT is on its way. -/
def eotLeft (files : List (File × Int)) (i : Nat) : Nat := fileLeft files (i + 1) + 9

/-- The moves that are left when the block behind `k` data blocks is on its way. -/
def blkLeft (files : List (File × Int)) (i : Nat) (f : File) (k : Nat) : Nat :=
  eotLeft files i + 16 * (f.numChunks - k)

/-- The moves that are left when the block behind `k` data blocks is on its way and `j` copies of it
have been written. -/
def copyLeft (files : List (File × Int)) (i : Nat) (f : File) (k j : Nat) : Nat :=
  blkLeft files i f (k + 1) + 8 * (2 - j)

/-- What the file number `i` has in it behind `k` data blocks and `j` copies of the next one. -/
def written (files : List (File × Int)) (i : Nat) (f : File) (k j : Nat) : List UInt8 :=
  blksWritten (acksBefore files i + 1) f k ++ (List.replicate j (payload f (k + 1))).flatten

/-- The ACKs behind them. -/
def acksAt (files : List (File × Int)) (i k : Nat) : Nat := acksBehind (acksBefore files i + 1) k

/-- The block behind `k` data blocks is to be written once more, behind `j` copies. -/
structure IsCopy (files : List (File × Int)) (i : Nat) (f : File) (k j : Nat) : Prop where
  file : IsFile files i f
  blk : k < f.numChunks
  copy : j < copiesAt (acksAt files i k)

/-- The stages of a session, and the moves that are left. -/
inductive Stage (files : List (File × Int)) : Point → Nat → Prop where
  | called {i f n} (hf : IsFile files i f) :
      Stage files ⟨AtStat files i f, n, acksBefore files i, [NCG], Announced files i, [], []⟩
        (blkLeft files i f 0 + 7)
  | stat {i f n} (hf : IsFile files i f) :
      Stage files ⟨AtStatAck files i f, n, acksBefore files i, [], Announced files i,
        [.blk (f.blk 0)], []⟩ (blkLeft files i f 0 + 6)
  | statThere {i f n got} (hf : IsFile files i f) (hlen : got.length = REST_BLK_SZ_CRC)
      (hname : cString (got.drop 2) = some (filename f.name)) :
      Stage files ⟨AtStatAck files i f, n, acksBefore files i, [], Announced files i,
        [], [.blk (SOH :: got)]⟩ (blkLeft files i f 0 + 5)
  | statRead {i f n c} (hf : IsFile files i f) :
      Stage files ⟨AtStatAck files i f, n, acksBefore files i + 1, [c, NCG],
        Copying files i f [] .first, [], []⟩ (blkLeft files i f 0 + 2)
  | asked {i f n} (hf : IsFile files i f) :
      Stage files ⟨AtDataC files i f, n, acksBefore files i + 1, [NCG],
        Copying files i f [] .first, [], []⟩ (blkLeft files i f 0 + 1)
  | blk {i f k j n} (h : IsCopy files i f k j) :
      Stage files ⟨AtBlk files i (k + 1) f, n, acksAt files i k + j, [],
        Copying files i f (written files i f k j) .first, [.blk (f.blk (k + 1))], []⟩
        (copyLeft files i f k j)
  | damaged {i f k j n got} (h : IsCopy files i f k j) (hlen : got.length = REST_BLK_SZ_CRC)
      (hbad : ¬ Intact got) (hfar : ¬ Near n) :
      Stage files ⟨AtBlk files i (k + 1) f, n, acksAt files i k + j, [],
        Copying files i f (written files i f k j) .first, [], [.blk (SOH :: got)]⟩
        (copyLeft files i f k j - 1)
  | rejected {i f k j n} (h : IsCopy files i f k j) (hfar : ¬ Near n) :
      Stage files ⟨AtBlk files i (k + 1) f, n, acksAt files i k + j, [NAK],
        Copying files i f (written files i f k j) .first, [], []⟩ (copyLeft files i f k j - 3)
  | again {i f k j n} (h : IsCopy files i f k j) (hfar : ¬ Near n) :
      Stage files ⟨AtBlk files i (k + 1) f, n, acksAt files i k + j, [],
        Copying files i f (written files i f k j) .first, [.blk (f.blk (k + 1))], []⟩
        (copyLeft files i f k j - 4)
  | there {i f k j n} (h : IsCopy files i f k j) :
      Stage files ⟨AtBlk files i (k + 1) f, n, acksAt files i k + j, [],
        Copying files i f (written files i f k j) .first, [], [.blk (f.blk (k + 1))]⟩
        (copyLeft files i f k j - 5)
  | refused {i f k j n} (h : IsCopy files i f k j) :
      Stage files ⟨AtBlk files i (k + 1) f, n, acksAt files i k + j, [NAK],
        Copying files i f (written files i f k j) .first, [], []⟩ (copyLeft files i f k j + 1)
  | acked {i f k n} (hf : IsFile files i f) (hk : k ≤ f.numChunks) :
      Stage files ⟨AtBlk files i k f, n, acksAt files i k, [ACK],
        Copying files i f (written files i f k 0) .first, [], []⟩ (blkLeft files i f k + 1)
  | eot {i f n} (hf : IsFile files i f) :
      Stage files ⟨AtEot files i .eotNak, n, acksAt files i f.numChunks, [],
        Copying files i f (written files i f f.numChunks 0) .first, [.byte EOT], []⟩
        (fileLeft files (i + 1) + 9)
  | eotThere {i f n} (hf : IsFile files i f) :
      Stage files ⟨AtEot files i .eotNak, n, acksAt files i f.numChunks, [],
        Copying files i f (written files i f f.numChunks 0) .first, [], [.byte EOT]⟩
        (fileLeft files (i + 1) + 8)
  | eotRead {i f n} (hf : IsFile files i f) :
      Stage files ⟨AtEot files i .eotNak, n, acksAt files i f.numChunks, [NAK],
        Copying files i f (written files i f f.numChunks 0) .anotherEot, [], []⟩
        (fileLeft files (i + 1) + 6)
  | secondEot {i f n} (hf : IsFile files i f) :
      Stage files ⟨AtEot files i .eotAck, n, acksAt files i f.numChunks, [],
        Copying files i f (written files i f f.numChunks 0) .anotherEot, [.byte EOT], []⟩
        (fileLeft files (i + 1) + 5)
  | secondThere {i f n} (hf : IsFile files i f) :
      Stage files ⟨AtEot files i .eotAck, n, acksAt files i f.numChunks, [],
        Copying files i f (written files i f f.numChunks 0) .anotherEot, [], [.byte EOT]⟩
        (fileLeft files (i + 1) + 4)
  | done {i c n} (hi : i < files.length) :
      Stage files ⟨AtEot files i .eotAck, n, acksBefore files (i + 1), [c, NCG],
        Announced files (i + 1), [], []⟩ (fileLeft files (i + 1) + 1)

/-- Both ends have returned, and the receiver has written every file. -/
structure Finished (files : List (File × Int)) (y : Sys) : Prop where
  snd : y.snd.wait = .returned
  rcv : y.rcv.wait = .returned
  sndResult : y.snd.result = ((doneText files.length).dropEnd 2).copy
  rcvResult : y.rcv.result = ((doneText files.length).dropEnd 2).copy
  files : HasFiles files files.length (outputs y.rcv.calls)

/-- The last stat block is on its way. -/
inductive LastSent (y : Sys) : Prop where
  | sent {n acks} (hM : y.toM = [.blk lastStatBlk]) (hR : y.toR = []) (hc : Counts n acks y.medium)
  | there {got} (hM : y.toM = []) (hR : y.toR = [.blk (SOH :: got)])
      (hlen : got.length = REST_BLK_SZ_CRC) (hname : cString (got.drop 2) = some [])

/-- From the last stat block on. It does not matter what the sender reads then. -/
inductive Ending (files : List (File × Int)) (y : Sys) : Nat → Prop where
  | last (hsnd : AtLast files y.snd) (hrcv : Announced files files.length y.rcv) (hsent : LastSent y) :
      Ending files y (3 + y.toM.length + y.fromR.length)
  | sndDone (hsnd : y.snd.wait = .returned)
      (hresult : y.snd.result = ((doneText files.length).dropEnd 2).copy)
      (hrcv : Announced files files.length y.rcv) (hsent : LastSent y) :
      Ending files y (2 + y.toM.length + y.fromR.length)
  | rcvDone (hsnd : AtLast files y.snd) (hrcv : y.rcv.wait = .returned)
      (hresult : y.rcv.result = ((doneText files.length).dropEnd 2).copy)
      (hfiles : HasFiles files files.length (outputs y.rcv.calls)) (hM : y.toM = []) (hR : y.toR = [])
      (hback : y.toS ++ y.fromR ≠ []) : Ending files y (1 + y.fromR.length)
  | finished (h : Finished files y) (hM : y.toM = []) (hR : y.toR = []) : Ending files y y.fromR.length

/-- A session with the number of moves that are left. -/
inductive OnTrack (files : List (File × Int)) (y : Sys) : Nat → Prop where
  | stage {p left} (hp : Stage files p left) (h : At p y) : OnTrack files y (left + y.fromR.length)
  | ending {n} (h : Ending files y n) : OnTrack files y n

/-- There is a kind move, if the medium does not spoil it, and every kind move keeps the session on
track with fewer moves left. -/
structure Advances (files : List (File × Int)) (y : Sys) (n : Nat) : Prop where
  move : (∃ mv y', y.KindStep mv y') ∨ y.Spoilt
  every : ∀ mv y', y.KindStep mv y' → ∃ k < n, OnTrack files y' k

section Moves

variable {files : List (File × Int)} {y y' : Sys} {p : Point} {left i j k n : Nat} {f : File} {c : UInt8}
  {back out : List UInt8} {items : List Item} {item : Item} {S : SenderY → Prop}
  {R : ReceiverY → Prop}

theorem IsFile.lt (h : IsFile files i f) : i < files.length := by
  obtain ⟨g, hg, -⟩ := Option.map_eq_some_iff.mp h
  exact (List.getElem?_eq_some_iff.mp hg).1

theorem IsFile.sendable (h : IsFile files i f) (hopens : Opens files) : Sendable f := by
  obtain ⟨g, hg, rfl⟩ := Option.map_eq_some_iff.mp h
  exact (hopens g (List.mem_of_getElem? hg)).1

theorem IsFile.before_succ (h : IsFile files i f) : before files (i + 1) = before files i ++ [f] := by
  obtain ⟨g, hg, rfl⟩ := Option.map_eq_some_iff.mp h
  rw [before, before, List.take_add_one, hg, List.map_append]
  rfl

theorem IsFile.acksBefore_succ (h : IsFile files i f) : acksBefore files (i + 1) =
    acksBehind (acksBefore files i + 1) f.numChunks + 1 := by
  rw [acksBefore, h.before_succ, List.foldl_append]
  rfl

theorem IsFile.fileLeft (h : IsFile files i f) : fileLeft files i = blkLeft files i f 0 + 7 := by
  obtain ⟨g, hg, rfl⟩ := Option.map_eq_some_iff.mp h
  obtain ⟨hi, rfl⟩ := List.getElem?_eq_some_iff.mp hg
  rw [Part2.fileLeft, List.drop_eq_getElem_cons hi, List.map_cons, sessionLeft, blkLeft, eotLeft,
    Part2.fileLeft]
  omega

theorem fileLeft_length (files : List (File × Int)) : fileLeft files files.length = 4 := by
  rw [fileLeft, List.drop_length]
  rfl

theorem blkLeft_next (hk : k < f.numChunks) : blkLeft files i f k = blkLeft files i f (k + 1) + 16 := by
  simp only [blkLeft]
  omega

theorem blkLeft_end : blkLeft files i f f.numChunks = fileLeft files (i + 1) + 9 := by
  simp [blkLeft, eotLeft]

/-! ## The copies of a block -/

theorem copiesAt_pos (acks : Nat) : 0 < copiesAt acks := by
  unfold copiesAt
  split_ifs <;> decide

theorem copiesAt_le (acks : Nat) : copiesAt acks ≤ 2 := by
  unfold copiesAt
  split_ifs <;> decide

/-- The ACK for the copy behind `j` others is a tenth one when one more copy is to follow. -/
theorem tenth_iff {acks : Nat} (hj : j < copiesAt acks) :
    10 ∣ acks + j + 1 ↔ j + 1 < copiesAt acks := by
  unfold copiesAt at *
  split_ifs at * <;> omega

theorem written_zero : written files i f k 0 = blksWritten (acksBefore files i + 1) f k := by
  simp [written]

theorem written_succ : written files i f k (j + 1) = written files i f k j ++ payload f (k + 1) := by
  rw [written, written, List.replicate_succ', List.flatten_append, List.flatten_singleton,
    List.append_assoc]

/-- The last copy ends the block. -/
theorem written_next (hj : j + 1 = copiesAt (acksAt files i k)) :
    written files i f (k + 1) 0 = written files i f k (j + 1) ∧
      acksAt files i (k + 1) = acksAt files i k + (j + 1) := by
  rw [acksAt] at hj
  rw [written_zero, blksWritten, ← hj]
  exact ⟨rfl, congrArg (acksBehind (acksBefore files i + 1) k + ·) hj.symm⟩

theorem lt_copyLeft (files : List (File × Int)) (i : Nat) (f : File) (k j : Nat) :
    8 < copyLeft files i f k j := by
  simp only [copyLeft, blkLeft, eotLeft]
  omega

/-! ## What the moves lead to -/

theorem not_atData {w : Expects} (hw : y.snd.wait = w) (hne : w ≠ .dataAck) : ¬ y.AtData :=
  fun hdata => hne (hw.symm.trans hdata)

/-- Only a response can be taken or passed on. -/
theorem advances_answer (hp : Stage files p left) (h : At p y) (hM : p.toM = []) (hR : p.toR = [])
    (hback : p.back = c :: back) (hgo : y.snd.Goes c items S)
    (hnext : ∀ kept y', kept <:+ back → (items.any Item.isBlk = false → kept = back) →
      At ⟨S, p.n, p.acks, kept, p.rcv, items, []⟩ y' →
        ∃ k < left, OnTrack files y' (k + y'.fromR.length)) :
    Advances files y (left + y.fromR.length) := by
  refine ⟨.inl (h.can_answer hback hgo), fun mv y' hmv => ?_⟩
  have hnoM : y.toM = [] := h.toM.trans hM
  have hnoR : y.toR = [] := h.toR.trans hR
  replace hmv := hmv.step
  cases mv with
  | answer =>
    obtain ⟨hfrom, kept, hkept, hall, hat⟩ := h.answers hback hgo hmv
    rw [hM, hR] at hat
    obtain ⟨k, hk, hon⟩ := hnext kept y' hkept hall hat
    refine ⟨_, ?_, hon⟩
    rw [hfrom]
    omega
  | pass numOfByte =>
    obtain ⟨hat, hlt⟩ := h.passes hmv
    exact ⟨_, by omega, .stage hp hat⟩
  | forward whole => simp [Sys.Step, Sys.exec, hnoM] at hmv
  | read env => simp [Sys.Step, Sys.exec, hnoR] at hmv

/-- Only the medium can move, and it takes the message under way. -/
theorem advances_forward (h : At p y) (hM : p.toM = [item]) (hR : p.toR = []) (hback : p.back = [])
    (hnext : ∀ whole y', y.KindStep (.forward whole) y' →
      ∃ k < left, OnTrack files y' (k + y'.fromR.length)) :
    Advances files y (left + y.fromR.length) := by
  obtain ⟨htoS, hfromR⟩ := h.quiet hback
  refine ⟨can_forward (h.toM.trans hM), fun mv y' hmv => ?_⟩
  have hnoR : y.toR = [] := h.toR.trans hR
  have hstep := hmv.step
  cases mv with
  | answer => simp [Sys.Step, Sys.exec, htoS] at hstep
  | pass numOfByte =>
    obtain ⟨-, hlt⟩ := h.passes hstep
    simp [hfromR] at hlt
  | forward whole =>
    obtain ⟨k, hk, hon⟩ := hnext whole y' hmv
    obtain ⟨hfrom, -⟩ := h.forwards hM hR hstep
    refine ⟨_, ?_, hon⟩
    rw [hfrom]
    omega
  | read env => simp [Sys.Step, Sys.exec, hnoR] at hstep

/-- An EOT comes through. -/
theorem advances_byte {b : UInt8} (h : At p y) (hM : p.toM = [.byte b]) (hR : p.toR = [])
    (hback : p.back = [])
    (hnext : ∀ n y', At ⟨p.snd, n, p.acks, p.back, p.rcv, [], [.byte b]⟩ y' →
      ∃ k < left, OnTrack files y' (k + y'.fromR.length)) :
    Advances files y (left + y.fromR.length) := by
  refine advances_forward h hM hR hback fun whole y' hmv => ?_
  obtain ⟨-, n, hat⟩ := h.forwards_byte hM hR hmv.step
  exact hnext n y' hat

/-- Only the message in front of the receiver can be read. -/
theorem advances_read (h : At p y) (hM : p.toM = []) (hR : p.toR = [item]) (hback : p.back = [])
    (hout : ACK ∉ out.tail)
    (hgo : ∀ env : Env, -1 < env.creat → env.close = 0 → y.rcv.Goes (item.reads env) out R)
    (hnext : ∀ y', At ⟨p.snd, p.n, p.acks + (out.map ackOf).sum, through p.acks out, R, [], []⟩ y' →
      ∃ k, k + out.length < left ∧ OnTrack files y' (k + y'.fromR.length)) :
    Advances files y (left + y.fromR.length) := by
  obtain ⟨htoS, hfromR⟩ := h.quiet hback
  have hitem : y.toR = [item] := h.toR.trans hR
  have hnoM : y.toM = [] := h.toM.trans hM
  constructor
  · obtain ⟨rcv, hrun, -⟩ := hgo ⟨3, 0⟩ (by decide) rfl
    refine .inl ⟨.read ⟨3, 0⟩, y.reads rcv [], Sys.Step.kind ?_ nofun⟩
    rw [Sys.Step, Sys.exec, hitem]
    refine (if_pos ⟨by decide, rfl⟩).trans ?_
    rw [hrun]
    rfl
  · intro mv y' hmv
    replace hmv := hmv.step
    cases mv with
    | answer => simp [Sys.Step, Sys.exec, htoS] at hmv
    | pass numOfByte =>
      obtain ⟨-, hlt⟩ := h.passes hmv
      simp [hfromR] at hlt
    | forward whole => simp [Sys.Step, Sys.exec, hnoM] at hmv
    | read env =>
      rw [Sys.Step, Sys.exec, hitem] at hmv
      simp only at hmv
      split_ifs at hmv with henv
      obtain ⟨hcreat, hclose⟩ := henv
      have hgoes := hgo env hcreat hclose
      obtain ⟨rcv, hrun, -⟩ := hgo env hcreat hclose
      rw [hrun] at hmv
      cases hmv
      obtain ⟨hlen, hat⟩ := h.reads hback hout hgoes hrun []
      rw [hM] at hat
      obtain ⟨k, hk, hon⟩ := hnext _ hat
      refine ⟨_, ?_, hon⟩
      rw [hlen]
      omega

/-! ## What the receiver does at the stages -/

theorem blk_reads (env : Env) (f : File) (k : Nat) :
    (Item.blk (f.blk k)).reads env = [(env, [SOH]), (env, (f.blk k).tail)] := by
  cases k <;> rfl

theorem Announced.stat {r : ReceiverY} {env : Env} {got : List UInt8} (h : Announced files i r)
    (hf : Sendable f) (hlen : got.length = REST_BLK_SZ_CRC)
    (hname : cString (got.drop 2) = some (filename f.name)) (hcreat : -1 < env.creat) :
    r.Goes ((Item.blk (SOH :: got)).reads env) [ACK, NCG] (Copying files i f [] .first) := by
  obtain ⟨r', hrun, ⟨hfill, houts⟩, hresponses⟩ := h.waiting.stat hlen hname hf.named hcreat
  exact ⟨r', hrun, ⟨_, _, _, hfill, rfl, houts, h.files, rfl, rfl⟩, hresponses⟩

/-- A copy of a block that arrives whole is written. -/
theorem Copying.good {r : ReceiverY} {data : List UInt8} (h : Copying files i f data .first r)
    (hf : Sendable f) (env : Env) (k : Nat) :
    r.Goes ((Item.blk (f.blk k)).reads env) [ACK] (Copying files i f (data ++ payload f k) .first) := by
  obtain ⟨fd, o, outs, hfill, ho, houts, hfiles, hname, hdata⟩ := h.opened
  have hi := Session.intact_blk hf k
  obtain ⟨r', hrun, ⟨hfill', houts'⟩, hresponses⟩ :=
    @Filling.blk env r i fd (f.blk k).tail hfill hi.length_eq o outs ho houts
  rw [if_pos hi] at hresponses houts'
  rw [Session.payloadOf_blk hf k] at houts'
  rw [blk_reads]
  exact ⟨r', hrun, ⟨fd, { o with data := o.data ++ payload f k }, outs, hfill', ho, houts', hfiles,
    hname, congrArg (· ++ payload f k) hdata⟩, hresponses⟩

/-- A damaged copy is not. -/
theorem Copying.bad {r : ReceiverY} {data rest : List UInt8} (h : Copying files i f data .first r)
    (hlen : rest.length = REST_BLK_SZ_CRC) (hbad : ¬ Intact rest) (env : Env) :
    r.Goes [(env, [SOH]), (env, rest)] [NAK] (Copying files i f data .first) := by
  obtain ⟨fd, o, outs, hfill, ho, houts, hfiles, hname, hdata⟩ := h.opened
  obtain ⟨r', hrun, ⟨hfill', houts'⟩, hresponses⟩ :=
    @Filling.blk env r i fd rest hfill hlen o outs ho houts
  rw [if_neg hbad] at hresponses houts'
  rw [List.append_nil] at houts'
  exact ⟨r', hrun, ⟨fd, o, outs, hfill', ho, houts', hfiles, hname, hdata⟩, hresponses⟩

theorem Copying.firstEot {r : ReceiverY} {data : List UInt8} (h : Copying files i f data .first r)
    (env : Env) : r.Goes ((Item.byte EOT).reads env) [NAK] (Copying files i f data .anotherEot) := by
  obtain ⟨fd, o, outs, hfill, ho, houts, hfiles, hname, hdata⟩ := h.opened
  obtain ⟨r', hrun, ⟨hfill', houts'⟩, hresponses⟩ := @Filling.firstEot env r i fd hfill
  exact ⟨r', hrun, ⟨fd, o, outs, hfill', ho, houts'.trans houts, hfiles, hname, hdata⟩, hresponses⟩

/-- The second EOT makes it one more file. -/
theorem Copying.secondEot {r : ReceiverY} {env : Env} (hf : IsFile files i f) (hclose : env.close = 0)
    (h : Copying files i f (written files i f f.numChunks 0) .anotherEot r) :
    r.Goes ((Item.byte EOT).reads env) [ACK, NCG] (Announced files (i + 1)) := by
  obtain ⟨fd, o, outs, hfill, ho, houts, hfiles, hname, hdata⟩ := h.opened
  rw [written_zero] at hdata
  obtain ⟨r', hrun, ⟨hwait, houts'⟩, hresponses⟩ := @Filling.secondEot env r i fd hfill hclose
  refine ⟨r', hrun, ⟨hwait, ?_⟩, hresponses⟩
  rw [HasFiles, houts', houts, List.reverse_cons, List.map_append, hfiles, hf.before_succ,
    filesWritten_append, List.map_singleton, hname, hdata]
  rfl

/-! ## The receiver before its end -/

theorem Announced.running {r : ReceiverY} (h : Announced files i r) : r.wait ≠ .returned := by
  rw [h.waiting.wait]
  decide

theorem Copying.running {r : ReceiverY} {data : List UInt8} {w : Wait} (h : Copying files i f data w r)
    (hw : w ≠ .returned) : r.wait ≠ .returned := by
  obtain ⟨fd, o, outs, hfill, -⟩ := h.opened
  rwa [hfill.waiting.wait]

theorem Stage.running (hp : Stage files p left) {r : ReceiverY} (hr : p.rcv r) :
    r.wait ≠ .returned := by
  cases hp with
  | called | stat | statThere | done => exact Announced.running hr
  | statRead | asked | blk | damaged | rejected | again | there | refused | acked | eot | eotThere =>
    exact Copying.running hr nofun
  | eotRead | secondEot | secondThere => exact Copying.running hr nofun

/-! ## Every stage -/

/-- The tenth ACK. -/
theorem through_ack (acks : Nat) : through acks [ACK] = if 10 ∣ acks + 1 then [NAK] else [ACK] := by
  simp [through, answered]

/-- An ACK and the request for more. -/
theorem through_ack_ncg (acks : Nat) : ∃ c, through acks [ACK, NCG] = [c, NCG] := by
  have hncg : ¬ NCG = ACK := by decide
  have hlast : through (acks + ackOf ACK) [NCG] = [NCG] := by
    simp [through, answered, hncg]
  rw [through, hlast, answered]
  split_ifs
  · exact ⟨NAK, rfl⟩
  · exact ⟨ACK, rfl⟩

theorem acks_ack_ncg : ([ACK, NCG].map ackOf).sum = 1 := by decide

theorem acks_ack : ([ACK].map ackOf).sum = 1 := by decide

/-- The block behind `k` data blocks, or the first EOT. -/
theorem advances_goes_on (hf : IsFile files i f) (hle : k ≤ f.numChunks) {S : SenderY → Prop}
    (hp : Stage files ⟨S, n, acksAt files i k, [c],
      Copying files i f (written files i f k 0) .first, [], []⟩ (blkLeft files i f k + 1))
    (h : At ⟨S, n, acksAt files i k, [c],
      Copying files i f (written files i f k 0) .first, [], []⟩ y)
    (hgo : (k < f.numChunks ∧ y.snd.Goes c [.blk (f.blk (k + 1))] (AtBlk files i (k + 1) f)) ∨
      (f.numChunks ≤ k ∧ y.snd.Goes c [.byte EOT] (AtEot files i .eotNak))) :
    Advances files y (blkLeft files i f k + 1 + y.fromR.length) := by
  rcases hgo with ⟨hk, hgo⟩ | ⟨hk, hgo⟩
  · refine advances_answer hp h rfl rfl rfl hgo fun kept y' hkept _ hat => ?_
    obtain rfl := List.suffix_nil.mp hkept
    have hleft : copyLeft files i f k 0 = blkLeft files i f k := (blkLeft_next hk).symm
    exact ⟨_, by omega, .stage (.blk ⟨hf, hk, copiesAt_pos _⟩) hat⟩
  · refine advances_answer hp h rfl rfl rfl hgo fun kept y' hkept _ hat => ?_
    obtain rfl := List.suffix_nil.mp hkept
    obtain rfl : k = f.numChunks := Nat.le_antisymm hle hk
    exact ⟨_, by rw [blkLeft_end]; omega, .stage (.eot hf) hat⟩

/-- The sender sends a copy of a block again. -/
theorem advances_naked (hp : Stage files ⟨AtBlk files i (k + 1) f, n, acksAt files i k + j, [NAK],
      Copying files i f (written files i f k j) .first, [], []⟩ left)
    (h : At ⟨AtBlk files i (k + 1) f, n, acksAt files i k + j, [NAK],
      Copying files i f (written files i f k j) .first, [], []⟩ y)
    (hnext : ∀ y', At ⟨AtBlk files i (k + 1) f, n, acksAt files i k + j, [],
      Copying files i f (written files i f k j) .first, [.blk (f.blk (k + 1))], []⟩ y' →
        ∃ k < left, OnTrack files y' (k + y'.fromR.length)) :
    Advances files y (left + y.fromR.length) := by
  refine advances_answer hp h rfl rfl rfl h.snd.naked fun kept y' hkept _ hat => ?_
  obtain rfl := List.suffix_nil.mp hkept
  exact hnext y' hat

/-- The medium takes a copy of a block, and damages it or not. -/
theorem advances_copy (hopens : Opens files) (hc : IsCopy files i f k j)
    (h : At ⟨AtBlk files i (k + 1) f, n, acksAt files i k + j, [],
      Copying files i f (written files i f k j) .first, [.blk (f.blk (k + 1))], []⟩ y)
    (hleft : copyLeft files i f k j < left + 5)
    (hfar : copyLeft files i f k j < left + 1 ∨ ¬ Near n) :
    Advances files y (left + y.fromR.length) := by
  have hblk : f.blk (k + 1) = SOH :: (f.blk (k + 1)).tail := rfl
  have hi : Intact (f.blk (k + 1)).tail := Session.intact_blk (hc.file.sendable hopens) (k + 1)
  have hpos := lt_copyLeft files i f k j
  refine advances_forward h rfl rfl rfl fun whole y' hmv => ?_
  obtain ⟨-, got, hlen, hgot, hat⟩ := h.forwards_blk (congrArg ([Item.blk ·]) hblk) rfl hi hmv.step
  rcases hgot with rfl | ⟨hbad, hnear⟩
  · exact ⟨_, by omega, .stage (.there hc) hat⟩
  · have hroom : copyLeft files i f k j < left + 1 := hfar.resolve_right (not_not_intro hnear)
    exact ⟨_, by omega, .stage (.damaged hc hlen hbad hnear.not_next) hat⟩

/-- The receiver writes a copy of a block. -/
theorem advances_there (hopens : Opens files) (hc : IsCopy files i f k j)
    (h : At ⟨AtBlk files i (k + 1) f, n, acksAt files i k + j, [],
      Copying files i f (written files i f k j) .first, [], [.blk (f.blk (k + 1))]⟩ y) :
    Advances files y (copyLeft files i f k j - 5 + y.fromR.length) := by
  have hnone : ACK ∉ [ACK].tail := List.not_mem_nil
  refine advances_read h rfl rfl rfl hnone
    (fun env _ _ => h.rcv.good (hc.file.sendable hopens) env (k + 1)) fun y' hat => ?_
  rw [acks_ack, ← written_succ] at hat
  simp only [through_ack] at hat
  have hj := hc.copy
  have htwo : j < 2 := Nat.lt_of_lt_of_le hj (copiesAt_le _)
  by_cases hmore : j + 1 < copiesAt (acksAt files i k)
  · rw [if_pos ((tenth_iff hj).mpr hmore)] at hat
    have hcopy : IsCopy files i f k (j + 1) := ⟨hc.file, hc.blk, hmore⟩
    refine ⟨_, ?_, .stage (.refused hcopy) hat⟩
    simp only [List.length_singleton, copyLeft]
    omega
  · rw [if_neg (fun hten => hmore ((tenth_iff hj).mp hten))] at hat
    obtain ⟨hdata, hacks⟩ := @written_next files i j k f (by omega)
    rw [← hdata, Nat.add_assoc, ← hacks] at hat
    refine ⟨_, ?_, .stage (.acked (k := k + 1) hc.file hc.blk) hat⟩
    simp only [List.length_singleton, copyLeft]
    omega

/-- From every stage a session goes on. -/
theorem Stage.advances (hopens : Opens files) (hp : Stage files p left) (h : At p y) :
    Advances files y (left + y.fromR.length) := by
  have hack : ACK ∉ [ACK, NCG].tail := by decide
  have hnak : ACK ∉ [NAK].tail := List.not_mem_nil
  cases hp with
  | @called i f n hf =>
    refine advances_answer (.called hf) h rfl rfl rfl (h.snd.goes NCG) fun kept y' hkept _ hat => ?_
    obtain rfl := List.suffix_nil.mp hkept
    exact ⟨_, Nat.lt_succ_self _, .stage (.stat hf) hat⟩
  | @stat i f n hf =>
    have hi : Intact (f.blk 0).tail := Session.intact_blk (hf.sendable hopens) 0
    refine advances_forward h rfl rfl rfl fun whole y' hmv => ?_
    obtain ⟨-, got, n', hlen, hname, hat⟩ :=
      h.forwards_stat rfl rfl hi (cString_stat f) (not_atData h.snd.wait nofun) hmv
    exact ⟨_, Nat.lt_succ_self _, .stage (.statThere hf hlen hname) hat⟩
  | @statThere i f n got hf hlen hname =>
    refine advances_read h rfl rfl rfl hack
      (fun env hcreat _ => h.rcv.stat (hf.sendable hopens) hlen hname hcreat) fun y' hat => ?_
    obtain ⟨c, hc⟩ := through_ack_ncg (acksBefore files i)
    rw [acks_ack_ncg] at hat
    simp only [hc] at hat
    exact ⟨_, by simp only [List.length_cons, List.length_nil]; omega, .stage (.statRead hf) hat⟩
  | @statRead i f n c hf =>
    refine advances_answer (.statRead hf) h rfl rfl rfl (h.snd.goes c) fun kept y' _ hall hat => ?_
    obtain rfl := hall rfl
    exact ⟨_, Nat.lt_succ_self _, .stage (.asked hf) hat⟩
  | @asked i f n hf =>
    exact advances_goes_on hf (Nat.zero_le _) (.asked hf) h (h.snd.goes NCG)
  | blk hc => exact advances_copy hopens hc h (by omega) (.inl (by omega))
  | @damaged i f k j n got hc hlen hbad hfar =>
    have hpos := lt_copyLeft files i f k j
    refine advances_read h rfl rfl rfl hnak (fun env _ _ => h.rcv.bad hlen hbad env) fun y' hat => ?_
    exact ⟨_, by simp only [List.length_singleton]; omega, .stage (.rejected hc hfar) hat⟩
  | @rejected i f k j n hc hfar =>
    have hpos := lt_copyLeft files i f k j
    refine advances_naked (.rejected hc hfar) h fun y' hat => ?_
    exact ⟨_, by omega, .stage (.again hc hfar) hat⟩
  | @again i f k j n hc hfar =>
    have hpos := lt_copyLeft files i f k j
    exact advances_copy hopens hc h (by omega) (.inr hfar)
  | there hc => exact advances_there hopens hc h
  | refused hc =>
    refine advances_naked (.refused hc) h fun y' hat => ?_
    exact ⟨_, Nat.lt_succ_self _, .stage (.blk hc) hat⟩
  | acked hf hk => exact advances_goes_on hf hk (.acked hf hk) h h.snd.acked
  | eot hf =>
    refine advances_byte h rfl rfl rfl fun n y' hat => ?_
    exact ⟨_, Nat.lt_succ_self _, .stage (.eotThere hf) hat⟩
  | eotThere hf =>
    refine advances_read h rfl rfl rfl hnak (fun env _ _ => h.rcv.firstEot env) fun y' hat => ?_
    exact ⟨_, by simp only [List.length_singleton]; omega, .stage (.eotRead hf) hat⟩
  | @eotRead i f n hf =>
    refine advances_answer (.eotRead hf) h rfl rfl rfl (h.snd.first_goes NAK) fun kept y' hkept _ hat => ?_
    obtain rfl := List.suffix_nil.mp hkept
    exact ⟨_, Nat.lt_succ_self _, .stage (.secondEot hf) hat⟩
  | secondEot hf =>
    refine advances_byte h rfl rfl rfl fun n y' hat => ?_
    exact ⟨_, Nat.lt_succ_self _, .stage (.secondThere hf) hat⟩
  | @secondThere i f n hf =>
    refine advances_read h rfl rfl rfl hack (fun env _ hclose => h.rcv.secondEot hf hclose)
      fun y' hat => ?_
    obtain ⟨c, hc⟩ := through_ack_ncg (acksAt files i f.numChunks)
    have hacks : acksBefore files (i + 1) = acksAt files i f.numChunks + 1 := hf.acksBefore_succ
    rw [acks_ack_ncg, ← hacks] at hat
    simp only [hc] at hat
    exact ⟨_, by simp only [List.length_cons, List.length_nil]; omega, .stage (.done hf.lt) hat⟩
  | @done i c n hi =>
    rcases h.snd.second_goes hopens hi c with ⟨g, hg, hgo⟩ | ⟨hlen, hgo⟩
    · refine advances_answer (.done hi) h rfl rfl rfl hgo fun kept y' _ hall hat => ?_
      obtain rfl := hall rfl
      have hleft : fileLeft files (i + 1) = blkLeft files (i + 1) g 0 + 7 := IsFile.fileLeft hg
      exact ⟨_, by rw [hleft]; exact Nat.lt_succ_self _, .stage (.called hg) hat⟩
    · refine advances_answer (.done hi) h rfl rfl rfl hgo fun kept y' _ _ hat => ?_
      have hrcv : Announced files files.length y'.rcv := hlen ▸ hat.rcv
      obtain ⟨⟨passed, hc, -⟩, -⟩ := hat.back
      have hsent : LastSent y' := .sent hat.toM hat.toR hc
      have hM : y'.toM.length = 1 := congrArg List.length hat.toM
      have hend := Ending.last hat.snd hrcv hsent
      rw [hM] at hend
      refine ⟨4, ?_, .ending hend⟩
      rw [hlen, fileLeft_length]
      omega

end Moves

end YModem.Part2
