import YModem.Lib.Bytes
import YModem.Lib.Decimal
import YModem.Peer.Block
import YModem.SmartState.Chart

/-!
# The receiver's context (`ReceiverY.h`, `ReceiverY.cpp`)

`Env` holds what the operating system answers while one event is handled: the clock,
the bytes that `myReadcond` delivers to `getRestBlk`, and the return values of
`myCreat` and `myClose`. No handler calls one of them twice.
-/

namespace YModem.Receiver

open YModem.Lib YModem.Peer YModem.SmartState

structure Env where
  elapsed : Int
  rest : List UInt8
  rest_le : rest.length ≤ BUF_SZ - 1
  creat : Int
  creat_ge : -1 ≤ creat
  close : Int

/-- The answers of a system in which every call succeeds and descriptor 3 is free. A read
of more than `BUF_SZ - 1` bytes is cut. -/
def Env.calm (rest : List UInt8) : Env where
  elapsed := 0
  rest := rest.take (BUF_SZ - 1)
  rest_le := List.length_take_le _ _
  creat := 3
  creat_ge := by decide
  close := 0

/-- `uint8_t rcvBlk[BUF_SZ]`. -/
abbrev RcvBlk := { bytes : List UInt8 // bytes.length = BUF_SZ }

namespace RcvBlk

def blank : RcvBlk := ⟨List.replicate BUF_SZ 0, List.length_replicate⟩

def get (blk : RcvBlk) (i : Nat) : UInt8 := blk.val.getD i 0

/-- The first `n` bytes of the chunk. -/
def chunk (blk : RcvBlk) (n : Nat) : List UInt8 := (blk.val.drop DATA_POS).take n

/-- `myReadcond(mediumD, rcvBlk+1, BUF_SZ - 1, ..)`. -/
def read (blk : RcvBlk) (rest : List UInt8) (h : rest.length ≤ BUF_SZ - 1) : RcvBlk :=
  ⟨overwrite blk.val 1 rest, by
    have hl := blk.property
    simp only [BUF_SZ, BLK_SZ_CRC, REST_BLK_SZ_CRC, CHUNK_SZ] at h hl ⊢
    rw [length_overwrite (by omega), hl]⟩

end RcvBlk

structure ReceiverY extends PeerY where
  closeProb : Int
  anotherFile : UInt8
  goodBlk : Bool
  goodBlk1st : Bool
  syncLoss : Bool
  bytesRemaining : Int
  rcvBlk : RcvBlk
  numLastGoodBlk : UInt8
deriving DecidableEq

namespace ReceiverY

/-- A freshly constructed `ReceiverY`; `rcvBlk` is not initialised. -/
def init (rcvBlk : RcvBlk) : ReceiverY :=
  ⟨PeerY.init, 1, 0xFF, false, false, false, 0, rcvBlk, 255⟩

/-- A member function of the base class. -/
@[simps! toPeerY closeProb anotherFile goodBlk goodBlk1st syncLoss bytesRemaining rcvBlk
  numLastGoodBlk]
def peer (r : ReceiverY) (f : PeerY → PeerY) : ReceiverY :=
  { r with toPeerY := f r.toPeerY }

@[simps!] def purge (r : ReceiverY) : ReceiverY := r.peer (·.log .purge)

@[simps!] def clearCan (r : ReceiverY) : ReceiverY := r.peer (·.log .clearCan)

@[simps!] def cans (r : ReceiverY) : ReceiverY := r.peer (·.log .cans)

/-- The body of `getRestBlk` behind the call of `myReadcond`, which read `bytesRead`
bytes into `rcvBlk`. -/
def judgeBlk (bytesRead : Nat) (r : ReceiverY) : ReceiverY :=
  let blkNum := r.rcvBlk.get 1
  if bytesRead < REST_BLK_SZ_CRC then
    { r with goodBlk := false, goodBlk1st := false }
  else if bytesRead > REST_BLK_SZ_CRC then
    { r with goodBlk := false, goodBlk1st := false }.purge
  else if r.rcvBlk.get 2 ≠ ~~~blkNum then
    { r with goodBlk := false, goodBlk1st := false }.purge
  else
    let r := { r with goodBlk1st := blkNum == r.numLastGoodBlk + 1 }
    if !r.goodBlk1st && (r.transferringFileD == -1 || blkNum != r.numLastGoodBlk) then
      { r with syncLoss := true, goodBlk := false }.purge
    else
      let r := { r with
        goodBlk := (r.rcvBlk.val.drop PAST_CHUNK).take 2 == crc16ns (r.rcvBlk.chunk CHUNK_SZ) }
      if !r.goodBlk then { r with goodBlk1st := false }.purge
      else if !r.goodBlk1st then r
      else { r with numLastGoodBlk := blkNum }

def getRestBlk (env : Env) (r : ReceiverY) : ReceiverY :=
  let r := judgeBlk env.rest.length { r with rcvBlk := r.rcvBlk.read env.rest env.rest_le }
  r.peer (·.log (.getRestBlk env.rest r.goodBlk r.goodBlk1st))

def writeChunk (r : ReceiverY) : ReceiverY :=
  if r.bytesRemaining ≤ 0 then r
  else
    let r := { r with bytesRemaining := r.bytesRemaining - CHUNK_SZ }
    let writeSize : Int :=
      if r.bytesRemaining < 0 then CHUNK_SZ + r.bytesRemaining else CHUNK_SZ
    if writeSize > 0 then
      r.peer (·.log (.write r.transferringFileD (r.rcvBlk.chunk writeSize.toNat)))
    else r

/-- The text of the size in the stat block of `fileName`. -/
def sizeText (fileName : List UInt8) (r : ReceiverY) : Option (List UInt8) :=
  cString (r.rcvBlk.val.drop (DATA_POS + fileName.length + 1))

/-- `transferringFileD = myCreat(fileNameP, mode)`. The record also has the size, which is not known
yet, and 0 when it will not be found out. -/
def creatFile (fileName : List UInt8) (env : Env) (r : ReceiverY) : ReceiverY :=
  let size := ((r.sizeText fileName).bind stoi).getD 0
  { r.peer (·.log (.creat fileName size r.transferringFileD env.creat)) with
    transferringFileD := env.creat }

/-- `bytesRemaining = stoi(..)`. -/
def readSize (fileName : List UInt8) (r : ReceiverY) : Except Fault ReceiverY :=
  match r.sizeText fileName with
  | none => .error .undefinedBehaviour
  | some text =>
    match stoi text with
    | none => .error .unexpected
    | some size => .ok { r with bytesRemaining := size }

/-- `strlen` reads past the buffer when there is no NUL behind `DATA_POS`. When `stoi` throws, the
file has been created and nothing closes it. -/
def openFileForTransfer (env : Env) (r : ReceiverY) : Except Fault ReceiverY :=
  match cString (r.rcvBlk.val.drop DATA_POS) with
  | none => .error .undefinedBehaviour
  | some fileName => (r.creatFile fileName env).readSize fileName

def closeTransferredFile (env : Env) (r : ReceiverY) : ReceiverY :=
  if r.transferringFileD > -1 then
    let r := { r.peer (·.log (.close r.transferringFileD env.close)) with closeProb := env.close }
    if r.closeProb ≠ 0 then r
    else { r with numLastGoodBlk := 255, transferringFileD := -1 }
  else r

def checkForAnotherFile (r : ReceiverY) : ReceiverY :=
  { r.peer (·.log (.checkForAnotherFile (r.rcvBlk.get DATA_POS))) with
    anotherFile := r.rcvBlk.get DATA_POS }

end ReceiverY

/-! ## What `getRestBlk` decides -/

namespace RcvBlk

variable (blk : RcvBlk) {rest : List UInt8} (h : rest.length ≤ BUF_SZ - 1)

theorem get_read {i : Nat} (hi : i < rest.length) : (blk.read rest h).get (1 + i) = rest.getD i 0 :=
  getD_overwrite (by rw [blk.property]; decide) hi

theorem chunk_read {n : Nat} (hn : 2 + n ≤ rest.length) :
    (blk.read rest h).chunk n = (rest.drop 2).take n := by
  exact take_drop_overwrite (i := 1) (j := 2) (by rw [blk.property]; decide) hn

theorem crc_read (hn : REST_BLK_SZ_CRC ≤ rest.length) :
    ((blk.read rest h).val.drop PAST_CHUNK).take 2 = (rest.drop (2 + CHUNK_SZ)).take 2 := by
  exact take_drop_overwrite (i := 1) (j := 2 + CHUNK_SZ) (by rw [blk.property]; decide) hn

end RcvBlk

/-- The four outcomes of `getRestBlk`: nothing usable, loss of synchronisation, a
second copy of the last good block, and a good block for the first time. -/
inductive RestBlk (env : Env) (r : ReceiverY) : ReceiverY → Prop where
  | bad (purged : List Call) (hp : purged = [] ∨ purged = [.purge]) (hbad : ¬ Intact env.rest) :
      RestBlk env r
        { r with
          rcvBlk := r.rcvBlk.read env.rest env.rest_le, goodBlk := false, goodBlk1st := false
          calls := r.calls ++ (purged ++ [.getRestBlk env.rest false false]) }
  | lost (hnum : blkNumOf env.rest ≠ r.numLastGoodBlk + 1)
      (hlost : r.transferringFileD = -1 ∨ blkNumOf env.rest ≠ r.numLastGoodBlk) :
      RestBlk env r
        { r with
          rcvBlk := r.rcvBlk.read env.rest env.rest_le, goodBlk := false, goodBlk1st := false
          syncLoss := true
          calls := r.calls ++ [.purge, .getRestBlk env.rest false false] }
  | resent (hi : Intact env.rest) (hfd : r.transferringFileD ≠ -1)
      (hnum : blkNumOf env.rest = r.numLastGoodBlk) :
      RestBlk env r
        { r with
          rcvBlk := r.rcvBlk.read env.rest env.rest_le, goodBlk := true, goodBlk1st := false
          calls := r.calls ++ [.getRestBlk env.rest true false] }
  | first (hi : Intact env.rest) (hnum : blkNumOf env.rest = r.numLastGoodBlk + 1) :
      RestBlk env r
        { r with
          rcvBlk := r.rcvBlk.read env.rest env.rest_le, goodBlk := true, goodBlk1st := true
          numLastGoodBlk := blkNumOf env.rest
          calls := r.calls ++ [.getRestBlk env.rest true true] }

theorem getRestBlk_spec (env : Env) (r : ReceiverY) : RestBlk env r (r.getRestBlk env) := by
  have bad := @RestBlk.bad env r
  have lost := @RestBlk.lost env r
  have resent := @RestBlk.resent env r
  have first := @RestBlk.first env r
  by_cases hshort : env.rest.length < REST_BLK_SZ_CRC
  · have hbad : ¬ Intact env.rest := fun hi => by
      have := hi.length_eq
      omega
    simpa [ReceiverY.getRestBlk, ReceiverY.judgeBlk, hshort, ReceiverY.peer, PeerY.log] using
      bad [] (.inl rfl) hbad
  by_cases hlong : env.rest.length > REST_BLK_SZ_CRC
  · have hbad : ¬ Intact env.rest := fun hi => by
      have := hi.length_eq
      omega
    simpa [ReceiverY.getRestBlk, ReceiverY.judgeBlk, hshort, hlong, ReceiverY.purge,
      ReceiverY.peer, PeerY.log] using bad [.purge] (.inr rfl) hbad
  have hlen : env.rest.length = REST_BLK_SZ_CRC := by omega
  have hnum : (r.rcvBlk.read env.rest env.rest_le).get 1 = blkNumOf env.rest :=
    RcvBlk.get_read r.rcvBlk env.rest_le (i := 0) (by rw [hlen]; decide)
  have hcomp : (r.rcvBlk.read env.rest env.rest_le).get 2 = complementOf env.rest :=
    RcvBlk.get_read r.rcvBlk env.rest_le (i := 1) (by rw [hlen]; decide)
  have hchunk : (r.rcvBlk.read env.rest env.rest_le).chunk CHUNK_SZ = payloadOf env.rest :=
    RcvBlk.chunk_read r.rcvBlk env.rest_le (by rw [hlen]; decide)
  have hcrc := RcvBlk.crc_read r.rcvBlk env.rest_le (by rw [hlen])
  unfold ReceiverY.getRestBlk ReceiverY.judgeBlk
  simp only [hshort, hlong, if_false, hnum, hcomp, hchunk, hcrc]
  by_cases hmatch : complementOf env.rest = ~~~blkNumOf env.rest
  swap
  · have hbad : ¬ Intact env.rest := fun hi => hmatch hi.matched
    simpa [hmatch, ReceiverY.purge, ReceiverY.peer, PeerY.log] using bad [.purge] (.inr rfl) hbad
  have hbad (h : ¬ (env.rest.drop (2 + CHUNK_SZ)).take 2 = crc16ns (payloadOf env.rest)) :
      ¬ Intact env.rest := fun hi => h hi.crc
  by_cases h1st : blkNumOf env.rest = r.numLastGoodBlk + 1
  · by_cases hc : (env.rest.drop (2 + CHUNK_SZ)).take 2 = crc16ns (payloadOf env.rest)
    · simpa [hmatch, h1st, hc, ReceiverY.peer, PeerY.log] using first ⟨hlen, hmatch, hc⟩ h1st
    · simpa [hmatch, h1st, beq_eq_false_iff_ne.mpr hc, ReceiverY.purge, ReceiverY.peer,
        PeerY.log] using bad [.purge] (.inr rfl) (hbad hc)
  have hnot : (blkNumOf env.rest == r.numLastGoodBlk + 1) = false := beq_eq_false_iff_ne.mpr h1st
  by_cases hlost : r.transferringFileD = -1 ∨ blkNumOf env.rest ≠ r.numLastGoodBlk
  · simpa [hmatch, hnot, hlost, ReceiverY.purge, ReceiverY.peer, PeerY.log] using lost h1st hlost
  rw [not_or, not_not] at hlost
  obtain ⟨hfd, hsame⟩ := hlost
  rw [hsame] at hnot
  by_cases hc : (env.rest.drop (2 + CHUNK_SZ)).take 2 = crc16ns (payloadOf env.rest)
  · simpa [hmatch, hnot, hfd, hsame, hc, ReceiverY.peer, PeerY.log] using
      resent ⟨hlen, hmatch, hc⟩ hfd hsame
  · simpa [hmatch, hnot, hfd, hsame, beq_eq_false_iff_ne.mpr hc, ReceiverY.purge,
      ReceiverY.peer, PeerY.log] using bad [.purge] (.inr rfl) (hbad hc)

/-! The members that `getRestBlk` leaves alone. -/

section Frame

variable (env : Env) (r : ReceiverY)

@[simp] theorem ReceiverY.getRestBlk_closeProb : (r.getRestBlk env).closeProb = r.closeProb := by
  have h := getRestBlk_spec env r
  generalize r.getRestBlk env = r' at h ⊢
  cases h <;> rfl

@[simp] theorem ReceiverY.getRestBlk_errCnt : (r.getRestBlk env).errCnt = r.errCnt := by
  have h := getRestBlk_spec env r
  generalize r.getRestBlk env = r' at h ⊢
  cases h <;> rfl

@[simp] theorem ReceiverY.getRestBlk_transferringFileD :
    (r.getRestBlk env).transferringFileD = r.transferringFileD := by
  have h := getRestBlk_spec env r
  generalize r.getRestBlk env = r' at h ⊢
  cases h <;> rfl

@[simp] theorem ReceiverY.getRestBlk_anotherFile : (r.getRestBlk env).anotherFile = r.anotherFile := by
  have h := getRestBlk_spec env r
  generalize r.getRestBlk env = r' at h ⊢
  cases h <;> rfl

@[simp] theorem ReceiverY.getRestBlk_rcvBlk :
    (r.getRestBlk env).rcvBlk = r.rcvBlk.read env.rest env.rest_le := by
  have h := getRestBlk_spec env r
  generalize r.getRestBlk env = r' at h ⊢
  cases h <;> rfl

end Frame

section Restricted

variable {env : Env} {r : ReceiverY}

/-- An intact block with the next number. -/
theorem getRestBlk_first (hi : Intact env.rest) (hnum : blkNumOf env.rest = r.numLastGoodBlk + 1) :
    r.getRestBlk env =
      { r with
        rcvBlk := r.rcvBlk.read env.rest env.rest_le, goodBlk := true, goodBlk1st := true
        numLastGoodBlk := blkNumOf env.rest
        calls := r.calls ++ [.getRestBlk env.rest true true] } := by
  have h := getRestBlk_spec env r
  generalize r.getRestBlk env = r' at h
  cases h with
  | bad _ _ hbad => exact absurd hi hbad
  | lost hne _ => exact absurd hnum hne
  | resent _ _ hsame => simp [hsame] at hnum
  | first _ _ => rfl

/-- A second copy of the last good block while a file is open. -/
theorem getRestBlk_resent (hi : Intact env.rest) (hfd : r.transferringFileD ≠ -1)
    (hnum : blkNumOf env.rest = r.numLastGoodBlk) :
    r.getRestBlk env =
      { r with
        rcvBlk := r.rcvBlk.read env.rest env.rest_le, goodBlk := true, goodBlk1st := false
        calls := r.calls ++ [.getRestBlk env.rest true false] } := by
  have h := getRestBlk_spec env r
  generalize r.getRestBlk env = r' at h
  cases h with
  | bad _ _ hbad => exact absurd hi hbad
  | lost _ hlost => rcases hlost with h | h <;> contradiction
  | resent _ _ _ => rfl
  | first _ hnext => simp [hnum] at hnext

end Restricted

/-- A loss of synchronisation is never forgotten. -/
theorem getRestBlk_syncLoss (env : Env) {r : ReceiverY} (hs : r.syncLoss = true) :
    (r.getRestBlk env).syncLoss = true := by
  have h := getRestBlk_spec env r
  generalize r.getRestBlk env = r' at h ⊢
  cases h <;> first | exact hs | rfl

/-- A block is read whole. -/
theorem calm_rest (num : UInt8) {payload : List UInt8} (h : payload.length = CHUNK_SZ) :
    (Env.calm (restOf num payload)).rest = restOf num payload :=
  List.take_of_length_le (by rw [length_restOf num h]; decide)

/-! ## The functions on the output file -/

/-- The outcomes of `closeTransferredFile`. -/
inductive Close (env : Env) (r : ReceiverY) : ReceiverY → Prop where
  | notOpen (hfd : r.transferringFileD ≤ -1) : Close env r r
  | failed (hfd : -1 < r.transferringFileD) (hc : env.close ≠ 0) :
      Close env r
        { r with
          closeProb := env.close
          calls := r.calls ++ [.close r.transferringFileD env.close] }
  | closed (hfd : -1 < r.transferringFileD) (hc : env.close = 0) :
      Close env r
        { r with
          closeProb := 0, numLastGoodBlk := 255, transferringFileD := -1
          calls := r.calls ++ [.close r.transferringFileD 0] }

theorem closeTransferredFile_spec (env : Env) (r : ReceiverY) :
    Close env r (r.closeTransferredFile env) := by
  unfold ReceiverY.closeTransferredFile
  by_cases hfd : r.transferringFileD > -1
  · rw [if_pos hfd]
    by_cases hc : env.close = 0
    · simpa [hc, ReceiverY.peer, PeerY.log] using Close.closed hfd hc
    · simpa [hc, ReceiverY.peer, PeerY.log] using Close.failed hfd hc
  · rw [if_neg hfd]
    exact Close.notOpen (by omega)

/-- An open file is closed by a system in which that succeeds. -/
theorem closeTransferredFile_closed {env : Env} {r : ReceiverY} (hfd : -1 < r.transferringFileD)
    (hc : env.close = 0) :
    r.closeTransferredFile env = { r with
      closeProb := 0, numLastGoodBlk := 255, transferringFileD := -1
      calls := r.calls ++ [.close r.transferringFileD 0] } := by
  have h := closeTransferredFile_spec env r
  generalize r.closeTransferredFile env = r' at h
  cases h with
  | notOpen hle => omega
  | failed _ hne => exact absurd hc hne
  | closed _ _ => rfl

@[simp] theorem ReceiverY.closeTransferredFile_syncLoss (env : Env) (r : ReceiverY) :
    (r.closeTransferredFile env).syncLoss = r.syncLoss := by
  have h := closeTransferredFile_spec env r
  generalize r.closeTransferredFile env = r' at h
  cases h <;> rfl

@[simp] theorem ReceiverY.closeTransferredFile_errCnt (env : Env) (r : ReceiverY) :
    (r.closeTransferredFile env).errCnt = r.errCnt := by
  have h := closeTransferredFile_spec env r
  generalize r.closeTransferredFile env = r' at h
  cases h <;> rfl

/-- A chunk is written as far as the announced size reaches. -/
theorem writeChunk_spec (r : ReceiverY) :
    r.writeChunk =
      if r.bytesRemaining ≤ 0 then r
      else
        { r with
          bytesRemaining := r.bytesRemaining - CHUNK_SZ
          calls := r.calls ++
            [.write r.transferringFileD (r.rcvBlk.chunk (min CHUNK_SZ r.bytesRemaining.toNat))] } := by
  unfold ReceiverY.writeChunk
  by_cases h : r.bytesRemaining ≤ 0
  · rw [if_pos h, if_pos h]
  · rw [if_neg h, if_neg h]
    by_cases hlast : r.bytesRemaining - CHUNK_SZ < 0
    · have hsize : CHUNK_SZ + (r.bytesRemaining - CHUNK_SZ) = r.bytesRemaining := by omega
      have hmin : min CHUNK_SZ r.bytesRemaining.toNat = r.bytesRemaining.toNat :=
        min_eq_right (by omega)
      rw [hmin]
      simp only [hlast, if_true, hsize]
      rw [if_pos (by omega)]
      rfl
    · have hmin : min CHUNK_SZ r.bytesRemaining.toNat = CHUNK_SZ := min_eq_left (by omega)
      rw [hmin]
      simp only [hlast, if_false]
      rfl

@[simp] theorem ReceiverY.writeChunk_transferringFileD (r : ReceiverY) :
    r.writeChunk.transferringFileD = r.transferringFileD := by
  rw [writeChunk_spec]
  split_ifs <;> rfl

@[simp] theorem ReceiverY.writeChunk_numLastGoodBlk (r : ReceiverY) :
    r.writeChunk.numLastGoodBlk = r.numLastGoodBlk := by
  rw [writeChunk_spec]
  split_ifs <;> rfl

@[simp] theorem ReceiverY.writeChunk_syncLoss (r : ReceiverY) :
    r.writeChunk.syncLoss = r.syncLoss := by
  rw [writeChunk_spec]
  split_ifs <;> rfl

/-- The name and the size that a stat block in `rcvBlk` carries. -/
def StatText (blk : RcvBlk) (fileName : List UInt8) (size : Int) : Prop :=
  cString (blk.val.drop DATA_POS) = some fileName ∧
    ∃ text, cString (blk.val.drop (DATA_POS + fileName.length + 1)) = some text ∧
      stoi text = some size

/-- The first byte of the chunk just read. -/
theorem RcvBlk.get_dataPos (blk : RcvBlk) {rest : List UInt8} (h : rest.length ≤ BUF_SZ - 1)
    (hlen : rest.length = REST_BLK_SZ_CRC) :
    (blk.read rest h).get DATA_POS = (payloadOf rest).getD 0 0 := by
  rw [show DATA_POS = 1 + 2 from rfl, blk.get_read h (by rw [hlen]; decide)]
  simp [payloadOf, List.getD_eq_getElem?_getD]

/-- The two strings that a chunk starts with. -/
theorem RcvBlk.cString_read (blk : RcvBlk) {rest fileName text : List UInt8} (pad : List UInt8)
    (h : rest.length ≤ BUF_SZ - 1) (hp : payloadOf rest = fileName ++ 0 :: (text ++ 0 :: pad))
    (hname : 0 ∉ fileName) (htext : 0 ∉ text) :
    cString ((blk.read rest h).val.drop DATA_POS) = some fileName ∧
      cString ((blk.read rest h).val.drop (DATA_POS + fileName.length + 1)) = some text := by
  obtain ⟨post, hrest⟩ : ∃ post, rest.drop 2 = payloadOf rest ++ post :=
    ⟨_, (List.take_append_drop _ _).symm⟩
  obtain ⟨tail, hdrop⟩ : ∃ tail, (blk.read rest h).val.drop DATA_POS =
      fileName ++ 0 :: (text ++ 0 :: tail) := by
    refine ⟨pad ++ post ++ blk.val.drop (1 + rest.length), ?_⟩
    have hhead : (blk.val.take 1).length = 1 := by rw [List.length_take, blk.property]; rfl
    have hlen : 2 ≤ rest.length := by
      by_contra hlt
      have hnil : rest.drop 2 = [] := List.drop_eq_nil_of_le (by omega)
      simp [payloadOf, hnil] at hp
    show (overwrite blk.val 1 rest).drop (1 + 2) = _
    rw [overwrite, List.append_assoc, ← List.drop_drop, List.drop_left' hhead,
      List.drop_append_of_le_length hlen, hrest, hp]
    simp
  refine ⟨by rw [hdrop]; exact cString_append_nul hname, ?_⟩
  have hsplit : fileName ++ 0 :: (text ++ 0 :: tail) = (fileName ++ [0]) ++ (text ++ 0 :: tail) := by
    simp
  rw [Nat.add_assoc, ← List.drop_drop, hdrop, hsplit, List.drop_left' (by simp)]
  exact cString_append_nul htext

/-- A chunk that starts with two NUL-terminated strings, the second one a number. -/
theorem RcvBlk.statText_read (blk : RcvBlk) {rest fileName text : List UInt8} {size : Int}
    (pad : List UInt8) (h : rest.length ≤ BUF_SZ - 1) (hp : payloadOf rest = fileName ++ 0 :: (text ++ 0 :: pad))
    (hname : 0 ∉ fileName) (htext : 0 ∉ text) (hsize : stoi text = some size) :
    StatText (blk.read rest h) fileName size := by
  obtain ⟨hfirst, hsecond⟩ := blk.cString_read pad h hp hname htext
  exact ⟨hfirst, text, hsecond, hsize⟩

namespace ReceiverY

variable {env : Env} {r r' : ReceiverY} {fileName text : List UInt8} {size : Int}

theorem openFileForTransfer_of_name (hname : cString (r.rcvBlk.val.drop DATA_POS) = some fileName) :
    r.openFileForTransfer env = (r.creatFile fileName env).readSize fileName := by
  rw [openFileForTransfer, hname]

/-- A size that can be read. -/
theorem openFileForTransfer_of_size (hname : cString (r.rcvBlk.val.drop DATA_POS) = some fileName)
    (htext : r.sizeText fileName = some text) (hsize : stoi text = some size) :
    r.openFileForTransfer env = .ok { r with
      transferringFileD := env.creat, bytesRemaining := size
      calls := r.calls ++ [.creat fileName size r.transferringFileD env.creat] } := by
  have hthen : (r.creatFile fileName env).sizeText fileName = some text := htext
  have hcreat : r.creatFile fileName env = { r with
      transferringFileD := env.creat
      calls := r.calls ++ [.creat fileName size r.transferringFileD env.creat] } := by
    rw [creatFile, htext, Option.bind_some, hsize]
    rfl
  rw [openFileForTransfer_of_name hname, readSize, hthen]
  simp only [hsize, hcreat]

/-- A size that cannot be read ends the process. The file has been created by then, and `r₁` holds
its descriptor. -/
theorem openFileForTransfer_fault (hname : cString (r.rcvBlk.val.drop DATA_POS) = some fileName)
    (hsize : (r.sizeText fileName).bind stoi = none) : ∃ (r₁ : ReceiverY) (f : Fault),
      r.openFileForTransfer env = r₁.readSize fileName ∧ r₁.readSize fileName = .error f ∧
      r₁.transferringFileD = env.creat ∧
      r₁.calls = r.calls ++ [.creat fileName 0 r.transferringFileD env.creat] := by
  have hthen : (r.creatFile fileName env).sizeText fileName = r.sizeText fileName := rfl
  have hcalls : (r.creatFile fileName env).calls =
      r.calls ++ [.creat fileName 0 r.transferringFileD env.creat] := by
    rw [creatFile, hsize]
    rfl
  have hfault : ∃ f, (r.creatFile fileName env).readSize fileName = .error f := by
    rw [readSize, hthen]
    cases htext : r.sizeText fileName with
    | none => exact ⟨_, rfl⟩
    | some text =>
      rw [htext, Option.bind_some] at hsize
      exact ⟨.unexpected, by simp only [hsize]⟩
  obtain ⟨f, hf⟩ := hfault
  exact ⟨_, f, openFileForTransfer_of_name hname, hf, rfl, hcalls⟩

end ReceiverY

theorem openFileForTransfer_spec {env : Env} {r r' : ReceiverY} :
    r.openFileForTransfer env = .ok r' ↔ ∃ fileName size, StatText r.rcvBlk fileName size ∧
      r' = { r with
        transferringFileD := env.creat, bytesRemaining := size
        calls := r.calls ++ [.creat fileName size r.transferringFileD env.creat] } := by
  constructor
  · intro h
    cases hname : cString (r.rcvBlk.val.drop DATA_POS) with
    | none =>
      rw [ReceiverY.openFileForTransfer, hname] at h
      cases h
    | some fileName =>
      cases hread : (r.sizeText fileName).bind stoi with
      | none =>
        obtain ⟨r₁, f, hopen, hf, -⟩ :=
          @ReceiverY.openFileForTransfer_fault env r fileName hname hread
        rw [hopen, hf] at h
        cases h
      | some size =>
        obtain ⟨text, htext, hsize⟩ := Option.bind_eq_some_iff.mp hread
        rw [ReceiverY.openFileForTransfer_of_size hname htext hsize] at h
        exact ⟨fileName, size, ⟨hname, text, htext, hsize⟩, (Except.ok.inj h).symm⟩
  · rintro ⟨fileName, size, ⟨hname, text, htext, hsize⟩, rfl⟩
    exact ReceiverY.openFileForTransfer_of_size hname htext hsize

end YModem.Receiver
