import YModem.Receiver.Context

/-!
# The outcomes of `getRestBlk`

Every sequence of bytes behind an SOH has exactly one of four outcomes, and the flags that
`getRestBlk` leaves show which one it was.
-/

namespace YModem.Receiver

open YModem.Lib YModem.Peer YModem.SmartState

inductive Outcome where
  | firstGood
  | resentGood
  | syncLost
  | bad
deriving DecidableEq, Repr

namespace Outcome

/-- `goodBlk`, `goodBlk1st` and `syncLoss`. -/
def flags : Outcome → Bool × Bool × Bool
  | firstGood => (true, true, false)
  | resentGood => (true, false, false)
  | syncLost => (false, false, true)
  | bad => (false, false, false)

theorem flags_injective {o o' : Outcome} (h : o.flags = o'.flags) : o = o' := by
  cases o <;> cases o' <;> first | rfl | simp [flags] at h

end Outcome

/-- The flags of a receiver. -/
def flagsOf (r : ReceiverY) : Bool × Bool × Bool := (r.goodBlk, r.goodBlk1st, r.syncLoss)

/-- Exactly the bytes of a block came, and its number matches the complement. -/
def Framed (rest : List UInt8) : Prop :=
  rest.length = REST_BLK_SZ_CRC ∧ complementOf rest = ~~~blkNumOf rest

/-- The checksum of the chunk is right. -/
def CrcMatches (rest : List UInt8) : Prop :=
  (rest.drop (2 + CHUNK_SZ)).take 2 = crc16ns (payloadOf rest)

/-- The number of the next block. -/
def IsNext (r : ReceiverY) (rest : List UInt8) : Prop :=
  (blkNumOf rest).toNat = (r.numLastGoodBlk.toNat + 1) % 256

/-- The number of the last good block, while a file is open. -/
def IsLast (r : ReceiverY) (rest : List UInt8) : Prop :=
  blkNumOf rest = r.numLastGoodBlk ∧ r.transferringFileD ≠ -1

/-- When each outcome results. -/
def Outcome.Cond (r : ReceiverY) (rest : List UInt8) : Outcome → Prop
  | firstGood => Framed rest ∧ IsNext r rest ∧ CrcMatches rest
  | resentGood => Framed rest ∧ IsLast r rest ∧ CrcMatches rest
  | syncLost => Framed rest ∧ ¬ IsNext r rest ∧ ¬ IsLast r rest
  | bad => ¬ (Framed rest ∧ IsNext r rest ∧ CrcMatches rest) ∧
      ¬ (Framed rest ∧ IsLast r rest ∧ CrcMatches rest) ∧
      ¬ (Framed rest ∧ ¬ IsNext r rest ∧ ¬ IsLast r rest)

section

variable {r : ReceiverY} {rest : List UInt8}

theorem isNext_iff : IsNext r rest ↔ blkNumOf rest = r.numLastGoodBlk + 1 := by
  rw [IsNext, ← UInt8.toNat_inj, UInt8.toNat_add]
  rfl

/-- Some outcome results. -/
theorem Outcome.cond_exists (r : ReceiverY) (rest : List UInt8) :
    ∃ o : Outcome, o.Cond r rest := by
  by_cases hfirst : Outcome.Cond r rest .firstGood
  · exact ⟨_, hfirst⟩
  by_cases hresent : Outcome.Cond r rest .resentGood
  · exact ⟨_, hresent⟩
  by_cases hlost : Outcome.Cond r rest .syncLost
  · exact ⟨_, hlost⟩
  exact ⟨.bad, hfirst, hresent, hlost⟩

end

/-! ## What the function leaves -/

section

variable {env : Env} {r : ReceiverY}

/-- The members that the four outcomes differ in. -/
structure Shows (o : Outcome) (rest : List UInt8) (r r' : ReceiverY) : Prop where
  flags : flagsOf r' = o.flags
  numLastGoodBlk : r'.numLastGoodBlk =
    if o = .firstGood then blkNumOf rest else r.numLastGoodBlk

/-- The bytes in which a block with the right number of bytes is judged. -/
private theorem judged_bytes (hlen : env.rest.length = REST_BLK_SZ_CRC) :
    (r.rcvBlk.read env.rest env.rest_le).get 1 = blkNumOf env.rest ∧
    (r.rcvBlk.read env.rest env.rest_le).get 2 = complementOf env.rest ∧
    (r.rcvBlk.read env.rest env.rest_le).chunk CHUNK_SZ = payloadOf env.rest ∧
    ((r.rcvBlk.read env.rest env.rest_le).val.drop PAST_CHUNK).take 2 =
      (env.rest.drop (2 + CHUNK_SZ)).take 2 :=
  ⟨RcvBlk.get_read r.rcvBlk env.rest_le (i := 0) (by rw [hlen]; decide),
    RcvBlk.get_read r.rcvBlk env.rest_le (i := 1) (by rw [hlen]; decide),
    RcvBlk.chunk_read r.rcvBlk env.rest_le (by rw [hlen]; decide),
    RcvBlk.crc_read r.rcvBlk env.rest_le (by rw [hlen])⟩

/-- Without the right number of bytes, or without a matching complement, nothing is kept. -/
theorem getRestBlk_not_framed (hs : r.syncLoss = false) (h : ¬ Framed env.rest) :
    Shows .bad env.rest r (r.getRestBlk env) := by
  unfold ReceiverY.getRestBlk ReceiverY.judgeBlk
  by_cases hshort : env.rest.length < REST_BLK_SZ_CRC
  · constructor <;> simp [hshort, flagsOf, Outcome.flags, hs]
  by_cases hlong : env.rest.length > REST_BLK_SZ_CRC
  · constructor <;> simp [hshort, hlong, flagsOf, Outcome.flags, hs]
  have hlen : env.rest.length = REST_BLK_SZ_CRC := by omega
  obtain ⟨hnum, hcomp, -, -⟩ := judged_bytes (r := r) hlen
  have hmatch : complementOf env.rest ≠ ~~~blkNumOf env.rest := fun hm => h ⟨hlen, hm⟩
  constructor <;> simp [hshort, hlong, hnum, hcomp, hmatch, flagsOf, Outcome.flags, hs]

/-- The number of a framed block, and its checksum if the number fits, decide. -/
theorem getRestBlk_framed (hs : r.syncLoss = false) (h : Framed env.rest) {o : Outcome}
    (hcond : o.Cond r env.rest) : Shows o env.rest r (r.getRestBlk env) := by
  obtain ⟨hlen, hmatch⟩ := id h
  obtain ⟨hnum, hcomp, hchunk, hcrc⟩ := judged_bytes (r := r) hlen
  have hshort : ¬ env.rest.length < REST_BLK_SZ_CRC := by omega
  have hlong : ¬ env.rest.length > REST_BLK_SZ_CRC := by omega
  have hbad (hn : IsNext r env.rest ∨ IsLast r env.rest) (hc : ¬ CrcMatches env.rest) :
      Shows .bad env.rest r (r.getRestBlk env) := by
    unfold ReceiverY.getRestBlk ReceiverY.judgeBlk
    simp only [hshort, hlong, if_false, hnum, hcomp, hchunk, hcrc, hmatch]
    have hne := beq_eq_false_iff_ne.mpr hc
    rcases hn with hn | hn
    · rw [isNext_iff] at hn
      constructor <;> simp [hn, hne, flagsOf, Outcome.flags, hs]
    · obtain ⟨hsame, hfd⟩ := hn
      constructor <;> simp [hsame, hfd, hne, flagsOf, Outcome.flags, hs]
  cases o with
  | firstGood =>
    obtain ⟨-, hn, hc⟩ := hcond
    rw [isNext_iff] at hn
    rw [CrcMatches] at hc
    unfold ReceiverY.getRestBlk ReceiverY.judgeBlk
    simp only [hshort, hlong, if_false, hnum, hcomp, hchunk, hcrc, hmatch]
    constructor <;> simp [hn, hc, flagsOf, Outcome.flags, hs]
  | resentGood =>
    obtain ⟨-, ⟨hsame, hfd⟩, hc⟩ := hcond
    rw [CrcMatches] at hc
    unfold ReceiverY.getRestBlk ReceiverY.judgeBlk
    simp only [hshort, hlong, if_false, hnum, hcomp, hchunk, hcrc, hmatch]
    constructor <;> simp [hsame, hfd, hc, flagsOf, Outcome.flags, hs]
  | syncLost =>
    obtain ⟨-, hn, hl⟩ := hcond
    have hne := beq_eq_false_iff_ne.mpr fun heq => hn (isNext_iff.mpr heq)
    have hlost : r.transferringFileD = -1 ∨ blkNumOf env.rest ≠ r.numLastGoodBlk := by
      by_contra hboth
      rw [not_or, not_not] at hboth
      exact hl ⟨hboth.2, hboth.1⟩
    unfold ReceiverY.getRestBlk ReceiverY.judgeBlk
    simp only [hshort, hlong, if_false, hnum, hcomp, hchunk, hcrc, hmatch]
    constructor <;> simp [hne, hlost, flagsOf, Outcome.flags]
  | bad =>
    obtain ⟨hfirst, hresent, hlost⟩ := hcond
    have hn : IsNext r env.rest ∨ IsLast r env.rest := by
      by_contra hneither
      rw [not_or] at hneither
      exact hlost ⟨h, hneither⟩
    refine hbad hn fun hc => ?_
    rcases hn with hn | hn
    · exact hfirst ⟨h, hn, hc⟩
    · exact hresent ⟨h, hn, hc⟩

/-- The outcome whose condition holds is the one that shows. -/
theorem getRestBlk_shows (hs : r.syncLoss = false) {o : Outcome} (hcond : o.Cond r env.rest) :
    Shows o env.rest r (r.getRestBlk env) := by
  by_cases h : Framed env.rest
  · exact getRestBlk_framed hs h hcond
  · cases o with
    | bad => exact getRestBlk_not_framed hs h
    | _ => exact absurd hcond.1 h

/-- `purge` is called when the block is not good although enough bytes came. -/
theorem judgeBlk_calls (bytesRead : Nat) (r : ReceiverY) :
    (r.judgeBlk bytesRead).calls = r.calls ++
      if (r.judgeBlk bytesRead).goodBlk = false ∧ REST_BLK_SZ_CRC ≤ bytesRead then [.purge]
      else [] := by
  unfold ReceiverY.judgeBlk
  by_cases hshort : bytesRead < REST_BLK_SZ_CRC
  · simp [hshort]
  have hle : REST_BLK_SZ_CRC ≤ bytesRead := by omega
  simp only [hshort, if_false, hle, and_true]
  split_ifs <;> simp_all [ReceiverY.purge, ReceiverY.peer, PeerY.log]

theorem getRestBlk_calls (env : Env) (r : ReceiverY) :
    (r.getRestBlk env).calls = r.calls ++
      ((if (r.getRestBlk env).goodBlk = false ∧ REST_BLK_SZ_CRC ≤ env.rest.length then [.purge]
        else []) ++
      [.getRestBlk env.rest (r.getRestBlk env).goodBlk (r.getRestBlk env).goodBlk1st]) := by
  rw [← List.append_assoc]
  exact congrArg (· ++ _) (judgeBlk_calls env.rest.length _)

end

/-- **Every input has exactly one outcome.** -/
theorem getRestBlk_classifies (env : Env) (r : ReceiverY) (hs : r.syncLoss = false) :
    (∃! o : Outcome, flagsOf (r.getRestBlk env) = o.flags) ∧
    (∀ o : Outcome, flagsOf (r.getRestBlk env) = o.flags ↔ o.Cond r env.rest) ∧
    ((r.getRestBlk env).numLastGoodBlk =
      if (r.getRestBlk env).goodBlk1st then blkNumOf env.rest else r.numLastGoodBlk) ∧
    (∃ new, (r.getRestBlk env).calls = r.calls ++ new ∧
      (Call.purge ∈ new ↔
        (r.getRestBlk env).goodBlk = false ∧ REST_BLK_SZ_CRC ≤ env.rest.length)) := by
  obtain ⟨o, ho⟩ := Outcome.cond_exists r env.rest
  obtain ⟨hflags, hnum⟩ := getRestBlk_shows hs ho
  have hone {o' : Outcome} (h : flagsOf (r.getRestBlk env) = o'.flags) : o' = o :=
    Outcome.flags_injective (h.symm.trans hflags)
  refine ⟨⟨o, hflags, fun o' h => hone h⟩, fun o' => ⟨fun h => ?_, fun h => ?_⟩, ?_, ?_⟩
  · rw [hone h]
    exact ho
  · exact (getRestBlk_shows hs h).flags
  · have h1st : (r.getRestBlk env).goodBlk1st = decide (o = .firstGood) := by
      have := congrArg (fun f : Bool × Bool × Bool => f.2.1) hflags
      cases o <;> exact this
    rw [hnum, h1st]
    simp
  · refine ⟨_, getRestBlk_calls env r, ?_⟩
    split_ifs with h <;> simp [h]

/-- A receiver behind the first data block, and that block once more. -/
def afterBlk1 : ReceiverY :=
  { ReceiverY.init .blank with transferringFileD := 3, numLastGoodBlk := 1 }

def blk1Again : Env := Env.calm (restOf 1 (List.replicate CHUNK_SZ 98))

set_option maxRecDepth 4000 in
theorem getRestBlk_classifies_resent :
    flagsOf (afterBlk1.getRestBlk blk1Again) = Outcome.resentGood.flags ∧
    (∃! o : Outcome, flagsOf (afterBlk1.getRestBlk blk1Again) = o.flags) ∧
    Outcome.resentGood.Cond afterBlk1 blk1Again.rest ∧
    (afterBlk1.getRestBlk blk1Again).numLastGoodBlk = 1 ∧
    ∃ new, (afterBlk1.getRestBlk blk1Again).calls = afterBlk1.calls ++ new ∧ Call.purge ∉ new := by
  obtain ⟨hone, hcond, hnum, new, hcalls, hpurge⟩ := getRestBlk_classifies blk1Again afterBlk1 rfl
  have hflags : flagsOf (afterBlk1.getRestBlk blk1Again) = Outcome.resentGood.flags := by
    decide +kernel
  have hboth := hflags
  simp only [flagsOf, Outcome.flags, Prod.mk.injEq] at hboth
  obtain ⟨hgood, hagain, -⟩ := hboth
  rw [hagain, if_neg Bool.false_ne_true] at hnum
  refine ⟨hflags, hone, (hcond .resentGood).mp hflags, hnum, new, hcalls, fun hmem => ?_⟩
  have hbad := (hpurge.mp hmem).1
  rw [hgood] at hbad
  cases hbad

end YModem.Receiver
