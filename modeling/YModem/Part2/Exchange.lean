import YModem.Lib.Run
import YModem.Part2.Receiving
import YModem.Part2.Sending
import YModem.Part2.Stream

/-!
# A session of Part 2

The sender, the medium and the receiver, with what travels between them. The medium takes what the
sender sends as `MsgFromTerm2` does, a block with or without its last byte, and responses as
`MsgFromTerm1` does, one or two at a time. A block is sent with `sendLastByte`, which throws away
the responses that have come in by then. The system calls of the receiver succeed.
-/

namespace YModem.Part2

open YModem.Lib YModem.Peer YModem.SmartState
open YModem.Sender (Blk File)

namespace Item

def isBlk : Item → Bool
  | .blk _ => true
  | .byte _ | .cans => false

/-- The name in a stat block. -/
def name : Item → Option (List UInt8)
  | .blk bytes => cString (bytes.drop DATA_POS)
  | .byte _ | .cans => none

/-- The same item with the bytes that have arrived for it. -/
def arrived (bytes : List UInt8) : Item → Item
  | .blk _ => .blk bytes
  | .byte b => .byte (bytes.headD b)
  | .cans => .cans

theorem no_rest_le : ([] : List UInt8).length ≤ BLK_SZ_CRC - 1 := Nat.zero_le _

/-- The calls of `MsgFromTerm2` that take it. -/
def calls (whole : Bool) : Item → List MediumMsg
  | .blk bytes => blkCalls whole bytes.tail
  | .byte b => [.fromTerm2 ⟨b, [], no_rest_le⟩]
  | .cans => [.fromTerm2 ⟨CAN, [CAN], by decide⟩]

/-- A block begins with an SOH. No byte that the medium reads by itself makes it read on. -/
def Takes (whole : Bool) : Item → Prop
  | .blk bytes => bytes.head? = some SOH ∧ LastAlone whole bytes.tail
  | .byte b => b ≠ SOH ∧ b ≠ CAN
  | .cans => True

instance (whole : Bool) : DecidablePred (Takes whole)
  | .blk _ => inferInstanceAs (Decidable (_ ∧ (whole = false → _ ≠ _ ∧ _ ≠ _)))
  | .byte b => inferInstanceAs (Decidable (b ≠ SOH ∧ b ≠ CAN))
  | .cans => inferInstanceAs (Decidable True)

/-- The reads of the receiver that take it. -/
def reads (env : Env) : Item → List (Env × List UInt8)
  | .blk bytes => [(env, bytes.take 1), (env, bytes.drop 1)]
  | .byte b => [(env, [b])]
  | .cans => [(env, [CAN]), (env, [CAN])]

end Item

/-- The two ends and the medium, and what travels. -/
structure Sys where
  snd : SenderY
  rcv : ReceiverY
  medium : Medium
  /-- What the medium has not taken yet. -/
  toM : List Item
  /-- What the receiver has not read yet. -/
  toR : List Item
  /-- The responses that the medium has not read yet. -/
  fromR : List UInt8
  /-- The responses that the medium has passed on. -/
  toS : List UInt8

/-- The moves, with what the system calls of the receiver answer. -/
inductive Move where
  /-- The sender reads a response. -/
  | answer
  /-- The medium reads up to `CAN_LEN` responses. -/
  | pass (numOfByte : Nat)
  /-- The medium takes what was sent next, a block `whole` or its last byte by itself. -/
  | forward (whole : Bool)
  /-- The receiver reads what comes next. -/
  | read (env : Env)

namespace Sys

/-- Both ends are at their first reads. -/
def init (snd : SenderY) (rcv : ReceiverY) : Sys :=
  ⟨snd, rcv, .init, itemsSent snd.trace, [], responses rcv.calls, []⟩

/-- The sender has gone on to `snd`, and `toS` has not been read yet. -/
def sends (y : Sys) (snd : SenderY) (toS : List UInt8) : Sys :=
  let sent := (itemsSent snd.trace).drop (itemsSent y.snd.trace).length
  { y with snd, toM := y.toM ++ sent, toS := if sent.any Item.isBlk then [] else toS }

/-- The medium has passed responses on. -/
def passes (y : Sys) (medium : Medium) (fromR : List UInt8) : Sys :=
  { y with
    medium, fromR
    toS := y.toS ++ (writtenTo2 medium.writes).drop (writtenTo2 y.medium.writes).length }

/-- What arrives for `item` when the medium is left as `medium`. -/
def arrives (y : Sys) (medium : Medium) (item : Item) : Item :=
  item.arrived ((writtenTo1 medium.writes).drop (writtenTo1 y.medium.writes).length)

/-- The medium has passed `item` on. -/
def forwards (y : Sys) (medium : Medium) (item : Item) (toM : List Item) : Sys :=
  { y with medium, toM, toR := y.toR ++ [y.arrives medium item] }

/-- The receiver has gone on to `rcv`, and `toR` has not been read yet. -/
def reads (y : Sys) (rcv : ReceiverY) (toR : List Item) : Sys :=
  { y with rcv, toR, fromR := y.fromR ++ (responses rcv.calls).drop (responses y.rcv.calls).length }

def exec (y : Sys) : Move → Option Sys
  | .answer =>
    match y.toS with
    | c :: toS => (y.snd.proceed c).toOption.map (y.sends · toS)
    | [] => none
  | .pass numOfByte =>
    if CAN_LEN < numOfByte ∨ y.fromR.length < numOfByte then none
    else
      match y.fromR.take numOfByte with
      | first :: rest => some (y.passes (y.medium.MsgFromTerm1 first rest) (y.fromR.drop numOfByte))
      | [] => none
  | .forward whole =>
    match y.toM with
    | item :: toM =>
      if item.Takes whole then
        (y.medium.run (item.calls whole)).toOption.map (y.forwards · item toM)
      else none
    | [] => none
  | .read env =>
    match y.toR with
    | item :: toR =>
      if -1 < env.creat ∧ env.close = 0 then
        (y.rcv.receiveFiles (item.reads env)).toOption.map (y.reads · toR)
      else none
    | [] => none

def Step (y : Sys) (mv : Move) (y' : Sys) : Prop := y.exec mv = some y'

/-- The sender waits for the response to a data block. -/
def AtData (y : Sys) : Prop := y.snd.wait = .dataAck

instance : DecidablePred AtData := fun y => inferInstanceAs (Decidable (y.snd.wait = .dataAck))

/-- The name in a stat block has arrived as it was sent. The receiver does not look at the verdict
on a stat block, nor at anything else in it. -/
def Spares (y y' : Sys) : Prop :=
  ¬ y.AtData → y'.toR.map Item.name = (y.toR ++ y.toM.take 1).map Item.name

instance (y : Sys) : DecidablePred y.Spares := fun y' =>
  inferInstanceAs (Decidable (¬ y.AtData → y'.toR.map Item.name = _))

/-- A move by which the medium does not damage the name in a stat block. -/
structure KindStep (y : Sys) (mv : Move) (y' : Sys) : Prop where
  step : y.Step mv y'
  spares : ∀ whole, mv = .forward whole → y.Spares y'

/-- Whichever way the medium takes what was sent next, it fails or damages the name in a stat
block. -/
def Spoilt (y : Sys) : Prop :=
  ∃ item toM, y.toM = item :: toM ∧ ∀ whole, item.Takes whole →
    (∃ x, y.medium.run (item.calls whole) = .error x) ∨
      ¬ y.AtData ∧ ∃ m, y.medium.run (item.calls whole) = .ok m ∧ (y.arrives m item).name ≠ item.name

end Sys

/-! ## The way back -/

/-- What the responses become behind `acks` ACKs. -/
def through : Nat → List UInt8 → List UInt8
  | _, [] => []
  | acks, c :: cs => answered acks c [] ++ through (acks + ackOf c) cs

/-- The medium has counted `n` bytes. The sender will read `back`, and there will have been `acks`
ACKs then. -/
structure Back (y : Sys) (n acks : Nat) (back : List UInt8) : Prop where
  exists_counts : ∃ passed, Counts n passed y.medium ∧ acks = passed + (y.fromR.map ackOf).sum ∧
    back = y.toS ++ through passed y.fromR
  tail : ACK ∉ y.fromR.tail

section Back

variable {y y' : Sys} {n acks : Nat} {back : List UInt8} {c : UInt8}

theorem through_append (acks : Nat) (cs ds : List UInt8) :
    through acks (cs ++ ds) = through acks cs ++ through (acks + (cs.map ackOf).sum) ds := by
  induction cs generalizing acks with
  | nil => simp [through]
  | cons c cs ih => simp [through, ih, Nat.add_assoc]

/-- A read of two bytes, the second of which is no ACK, is as good as two reads. -/
theorem answered_eq_through {rest : List UInt8} (hrest : ACK ∉ rest) (acks : Nat) (c : UInt8) :
    answered acks c rest = through acks (c :: rest) ∧ (rest.map ackOf).sum = 0 := by
  have hkeep (acks : Nat) : through acks rest = rest ∧ (rest.map ackOf).sum = 0 := by
    induction rest generalizing acks with
    | nil => exact ⟨rfl, rfl⟩
    | cons d rest ih =>
      have hd : d ≠ ACK := fun h => hrest (h ▸ List.mem_cons_self)
      obtain ⟨hthrough, hsum⟩ := ih (fun hmem => hrest (List.mem_cons_of_mem _ hmem)) acks
      have hzero : ackOf d = 0 := if_neg hd
      refine ⟨?_, by rw [List.map_cons, List.sum_cons, hzero, hsum]⟩
      rw [through, answered, if_neg (fun hx => hd hx.1), hzero, Nat.add_zero, hthrough]
      rfl
  refine ⟨?_, (hkeep 0).2⟩
  rw [through, (hkeep _).1, answered, answered]
  split_ifs <;> rfl

/-- What the medium passes on does not change what the sender will read. -/
theorem Back.passes {numOfByte : Nat} (h : Back y n acks back)
    (hmv : y.Step (.pass numOfByte) y') : Back y' n acks back ∧ y'.fromR.length < y.fromR.length ∧
      y'.snd = y.snd ∧ y'.rcv = y.rcv ∧ y'.toM = y.toM ∧ y'.toR = y.toR := by
  obtain ⟨⟨passed, hc, rfl, rfl⟩, htail⟩ := h
  simp only [Sys.Step, Sys.exec] at hmv
  split_ifs at hmv with hout
  obtain ⟨hcan, hlen⟩ := not_or.mp hout
  have hsplit := List.take_append_drop numOfByte y.fromR
  cases htake : y.fromR.take numOfByte with
  | nil =>
    rw [htake] at hmv
    cases hmv
  | cons c rest =>
    rw [htake] at hmv hsplit
    cases hmv
    generalize y.fromR.drop numOfByte = left at hsplit
    rw [← hsplit] at htail
    have hrest : ACK ∉ rest := fun hmem => htail (List.mem_append_left left hmem)
    have hleft : ACK ∉ left := fun hmem => htail (List.mem_append_right rest hmem)
    obtain ⟨hc', hp⟩ := term1_passes hc c rest
    obtain ⟨hanswered, hsum⟩ := answered_eq_through hrest passed c
    have hnew : (writtenTo2 (y.medium.MsgFromTerm1 c rest).writes).drop
        (writtenTo2 y.medium.writes).length = through passed (c :: rest) := by
      rw [hp.to2, List.drop_left, hanswered]
    refine ⟨⟨⟨passed + ackOf c, hc', ?_, ?_⟩, fun hmem => hleft (List.mem_of_mem_tail hmem)⟩, ?_,
      rfl, rfl, rfl, rfl⟩
    · show passed + (y.fromR.map ackOf).sum = _
      rw [← hsplit, List.map_append, List.sum_append, List.map_cons, List.sum_cons, hsum]
      simp only [Sys.passes]
      omega
    · show y.toS ++ through passed y.fromR = (y.toS ++ _) ++ through (passed + ackOf c) left
      rw [hnew, ← hsplit, through_append, List.map_cons, List.sum_cons, hsum, Nat.add_zero,
        List.append_assoc]
    · rw [← hsplit]
      simp only [Sys.passes, List.length_append, List.length_cons]
      omega

/-- Whatever the medium passes on, it passes on something. -/
theorem MsgFromTerm1_passes (m : Medium) (first : UInt8) (rest : List UInt8) :
    ∃ b, Passes m (m.MsgFromTerm1 first rest) [] (b :: rest) := by
  unfold Medium.MsgFromTerm1
  dsimp only
  split_ifs
  · exact ⟨NAK, (passes_toTerm2 m (NAK :: rest)).of_writes rfl⟩
  · exact ⟨first, (passes_toTerm2 m (first :: rest)).of_writes rfl⟩
  · exact ⟨first, passes_toTerm2 m (first :: rest)⟩

theorem pass_inv {numOfByte : Nat} (hmv : y.Step (.pass numOfByte) y') : y'.snd = y.snd ∧
    y'.rcv = y.rcv ∧ y'.toM = y.toM ∧ y'.toR = y.toR ∧
      (∃ first rest, y'.medium = y.medium.MsgFromTerm1 first rest) ∧
      y'.fromR.length < y.fromR.length ∧ y'.toS ≠ [] := by
  simp only [Sys.Step, Sys.exec] at hmv
  split_ifs at hmv with hout
  have hsplit := List.take_append_drop numOfByte y.fromR
  cases htake : y.fromR.take numOfByte with
  | nil =>
    rw [htake] at hmv
    cases hmv
  | cons c rest =>
    rw [htake] at hmv hsplit
    cases hmv
    obtain ⟨b, hp⟩ := MsgFromTerm1_passes y.medium c rest
    refine ⟨rfl, rfl, rfl, rfl, ⟨c, rest, rfl⟩, ?_, ?_⟩
    · have hlen := congrArg List.length hsplit
      simp only [Sys.passes, List.length_append, List.length_cons] at hlen ⊢
      omega
    · simp [Sys.passes, hp.to2]

/-- A move by which nothing is forwarded is kind. -/
theorem Sys.Step.kind {mv : Move} (h : y.Step mv y') (hmv : ∀ whole, mv ≠ .forward whole) :
    y.KindStep mv y' :=
  ⟨h, fun whole heq => absurd heq (hmv whole)⟩

theorem can_pass (h : y.fromR ≠ []) : ∃ mv y', y.KindStep mv y' := by
  obtain ⟨d, ds, hfromR⟩ := List.exists_cons_of_ne_nil h
  refine ⟨.pass 1, y.passes (y.medium.MsgFromTerm1 d []) ds, Sys.Step.kind ?_ nofun⟩
  have hcan : CAN_LEN = 2 := rfl
  have hfits : ¬ (CAN_LEN < 1 ∨ y.fromR.length < 1) := by
    rw [hfromR, List.length_cons]
    omega
  rw [Sys.Step, Sys.exec, if_neg hfits, hfromR]
  rfl

end Back

/-! ## Where the two ends are -/

/-- What holds at a point of a session. -/
structure Point where
  snd : SenderY → Prop
  n : Nat
  acks : Nat
  back : List UInt8
  rcv : ReceiverY → Prop
  toM : List Item
  toR : List Item

/-- The session is at the place. -/
structure At (p : Point) (y : Sys) : Prop where
  snd : p.snd y.snd
  rcv : p.rcv y.rcv
  back : Back y p.n p.acks p.back
  toM : y.toM = p.toM
  toR : y.toR = p.toR

section At

variable {p : Point} {y y' : Sys} {c : UInt8} {back : List UInt8} {items toM toR : List Item}
  {item : Item} {S : SenderY → Prop} {R : ReceiverY → Prop} {env : Env} {out rest : List UInt8}
  {n acks : Nat} {whole : Bool}

theorem At.passes {numOfByte : Nat} (h : At p y) (hmv : y.Step (.pass numOfByte) y') :
    At p y' ∧ y'.fromR.length < y.fromR.length := by
  obtain ⟨hback, hlt, hsnd, hrcv, htoM, htoR⟩ := h.back.passes hmv
  exact ⟨⟨hsnd ▸ h.snd, hrcv ▸ h.rcv, hback, htoM.trans h.toM, htoR.trans h.toR⟩, hlt⟩

/-- The sender takes the next response. When it sends a block it may throw some of the rest away. -/
theorem At.answers (h : At p y) (hp : p.back = c :: back) (hgo : y.snd.Goes c items S)
    (hmv : y.Step .answer y') : y'.fromR = y.fromR ∧ ∃ kept, kept <:+ back ∧
      (items.any Item.isBlk = false → kept = back) ∧
      At ⟨S, p.n, p.acks, kept, p.rcv, p.toM ++ items, p.toR⟩ y' := by
  obtain ⟨⟨passed, hc, hacks, hback⟩, htail⟩ := h.back
  rw [hp] at hback
  simp only [Sys.Step, Sys.exec] at hmv
  cases htoS : y.toS with
  | nil =>
    rw [htoS] at hmv
    cases hmv
  | cons d toS =>
    rw [htoS] at hmv hback
    obtain ⟨rfl, hleft⟩ := List.cons.inj hback
    have hkept : back = toS ++ through passed y.fromR := hleft
    obtain ⟨s', hs, hS, hitems⟩ := hgo
    have hsent : (y.snd.proceed c).toOption.map (y.sends · toS) = some y' := hmv
    rw [hs] at hsent
    cases hsent
    have hnew : (itemsSent s'.trace).drop (itemsSent y.snd.trace).length = items := by
      rw [hitems, List.drop_left]
    refine ⟨rfl, (if items.any Item.isBlk then [] else toS) ++ through passed y.fromR, ?_, ?_,
      ⟨hS, h.rcv, ⟨⟨passed, hc, hacks, ?_⟩, htail⟩, ?_, h.toR⟩⟩
    · rw [hkept]
      split_ifs
      · exact List.suffix_append _ _
      · exact List.suffix_refl _
    · intro hnone
      rw [hnone, hkept]
      rfl
    · simp only [Sys.sends, hnew]
    · simp only [Sys.sends, hnew, h.toM]

theorem acked_calls (item : Item) (whole : Bool) : ((item.calls whole).map acked).sum = 0 := by
  cases item with
  | blk bytes => cases whole <;> rfl
  | byte b => rfl
  | cans => rfl

/-- What the medium does when it takes an item. -/
theorem forward_inv (hc : Counts n acks y.medium) (hM : y.toM = item :: toM)
    (hmv : y.Step (.forward whole) y') : item.Takes whole ∧ ∃ m,
      Counts (n + ((item.calls whole).map counted).sum) acks m ∧
      y.arrives m item = item.arrived (toTerm1 n (item.calls whole)) ∧ y' = y.forwards m item toM := by
  simp only [Sys.Step, Sys.exec, hM] at hmv
  split_ifs at hmv with htakes
  cases hrun : y.medium.run (item.calls whole) with
  | error x =>
    rw [hrun] at hmv
    cases hmv
  | ok m =>
    rw [hrun] at hmv
    cases hmv
    obtain ⟨hc', hp⟩ := run_passes hc hrun
    rw [acked_calls, Nat.add_zero] at hc'
    exact ⟨htakes, m, hc', by rw [Sys.arrives, hp.to1, List.drop_left], rfl⟩

/-- What becomes of a block that the medium takes. -/
theorem arrived_blk (hi : Intact rest) (htakes : (Item.blk (SOH :: rest)).Takes whole) (n : Nat) :
    ∃ got, (Item.blk (SOH :: rest)).arrived (toTerm1 n ((Item.blk (SOH :: rest)).calls whole)) =
        .blk (SOH :: got) ∧
      got.length = REST_BLK_SZ_CRC ∧ (got = rest ∨ ¬ Intact got ∧ Near n) := by
  obtain ⟨got, hgot, hlen, hdamage⟩ := blk_passed hi n htakes.2
  exact ⟨got, congrArg Item.blk hgot, hlen, hdamage⟩

/-- The medium takes what is on its way. The responses do not change by it. -/
theorem At.forwards (h : At p y) (hM : p.toM = [item]) (hR : p.toR = [])
    (hmv : y.Step (.forward whole) y') : y'.fromR = y.fromR ∧ item.Takes whole ∧
      At ⟨p.snd, p.n + ((item.calls whole).map counted).sum, p.acks, p.back, p.rcv, [],
        [item.arrived (toTerm1 p.n (item.calls whole))]⟩ y' := by
  obtain ⟨⟨passed, hc, hacks, hback⟩, htail⟩ := h.back
  obtain ⟨htakes, m, hc', harrives, rfl⟩ := forward_inv hc (h.toM.trans hM) hmv
  refine ⟨rfl, htakes, h.snd, h.rcv, ⟨⟨passed, hc', hacks, hback⟩, htail⟩, rfl, ?_⟩
  show y.toR ++ [y.arrives m item] = _
  rw [h.toR, hR, harrives]
  rfl

/-- A block, behind which the medium has counted as many bytes more. -/
theorem At.forwards_blk (h : At p y) (hM : p.toM = [.blk (SOH :: rest)]) (hR : p.toR = [])
    (hi : Intact rest) (hmv : y.Step (.forward whole) y') : y'.fromR = y.fromR ∧
      ∃ got, got.length = REST_BLK_SZ_CRC ∧ (got = rest ∨ ¬ Intact got ∧ Near p.n) ∧
        At ⟨p.snd, p.n + BLK_SZ_CRC, p.acks, p.back, p.rcv, [], [.blk (SOH :: got)]⟩ y' := by
  obtain ⟨hfrom, htakes, hat⟩ := h.forwards hM hR hmv
  obtain ⟨got, harrived, hlen, hdamage⟩ := arrived_blk hi htakes p.n
  have hcount : (((Item.blk (SOH :: rest)).calls whole).map counted).sum = BLK_SZ_CRC :=
    counted_blkCalls whole hi.length_eq
  rw [hcount, harrived] at hat
  exact ⟨hfrom, got, hlen, hdamage, hat⟩

/-- A stat block whose name a kind move leaves alone. -/
theorem At.forwards_stat {name : List UInt8} (h : At p y) (hM : p.toM = [.blk (SOH :: rest)])
    (hR : p.toR = []) (hi : Intact rest) (hname : cString (rest.drop 2) = some name)
    (hdata : ¬ y.AtData) (hmv : y.KindStep (.forward whole) y') : y'.fromR = y.fromR ∧
      ∃ got n, got.length = REST_BLK_SZ_CRC ∧ cString (got.drop 2) = some name ∧
        At ⟨p.snd, n, p.acks, p.back, p.rcv, [], [.blk (SOH :: got)]⟩ y' := by
  obtain ⟨hfrom, got, hlen, -, hat⟩ := h.forwards_blk hM hR hi hmv.step
  refine ⟨hfrom, got, _, hlen, ?_, hat⟩
  have hspares := hmv.spares whole rfl hdata
  rw [hat.toR, h.toR, hR, h.toM, hM] at hspares
  exact (List.cons.inj hspares).1.trans hname

/-- A byte that is sent by itself. -/
theorem At.forwards_byte {b : UInt8} (h : At p y) (hM : p.toM = [.byte b]) (hR : p.toR = [])
    (hmv : y.Step (.forward whole) y') : y'.fromR = y.fromR ∧
      ∃ n, At ⟨p.snd, n, p.acks, p.back, p.rcv, [], [.byte b]⟩ y' := by
  obtain ⟨hfrom, htakes, hat⟩ := h.forwards hM hR hmv
  have harrived : (Item.byte b).arrived (toTerm1 p.n ((Item.byte b).calls whole)) = .byte b := by
    simp [Item.arrived, Item.calls, toTerm1, passed, htakes.1, htakes.2]
  rw [harrived] at hat
  exact ⟨hfrom, _, hat⟩

/-- What the medium can take it takes, if it does not fail or damage a name. -/
theorem can_forward (hM : y.toM = item :: toM) : (∃ mv y', y.KindStep mv y') ∨ y.Spoilt := by
  by_cases hgood : ∃ whole, item.Takes whole ∧ ∃ m, y.medium.run (item.calls whole) = .ok m ∧
      (y.AtData ∨ (y.arrives m item).name = item.name)
  · obtain ⟨whole, htakes, m, hrun, hkind⟩ := hgood
    have hstep : y.Step (.forward whole) (y.forwards m item toM) := by
      rw [Sys.Step, Sys.exec, hM]
      refine (if_pos htakes).trans ?_
      rw [hrun]
      rfl
    refine .inl ⟨_, _, hstep, fun _ _ hdata => ?_⟩
    rcases hkind with hdata' | hsame
    · exact absurd hdata' hdata
    · show (y.toR ++ [y.arrives m item]).map Item.name = (y.toR ++ y.toM.take 1).map Item.name
      have htake : y.toM.take 1 = [item] := by
        rw [hM]
        rfl
      rw [htake, List.map_append, List.map_append, List.map_singleton, List.map_singleton, hsame]
  · refine .inr ⟨item, toM, hM, fun whole htakes => ?_⟩
    cases hrun : y.medium.run (item.calls whole) with
    | error x => exact .inl ⟨x, rfl⟩
    | ok m =>
      refine .inr ⟨fun hdata => hgood ⟨whole, htakes, m, hrun, .inl hdata⟩, m, rfl, fun hsame => ?_⟩
      exact hgood ⟨whole, htakes, m, hrun, .inr hsame⟩

/-- No response is on its way. -/
theorem At.quiet (h : At p y) (hp : p.back = []) : y.toS = [] ∧ y.fromR = [] := by
  obtain ⟨⟨passed, -, -, hback⟩, -⟩ := h.back
  rw [hp] at hback
  obtain ⟨htoS, hthrough⟩ := List.append_eq_nil_iff.mp hback.symm
  refine ⟨htoS, ?_⟩
  cases hf : y.fromR with
  | nil => rfl
  | cons d ds =>
    rw [hf, through, answered] at hthrough
    split_ifs at hthrough <;> cases hthrough

/-- What the receiver answers when nothing of its answers is on the way. -/
theorem At.reads {rcv : ReceiverY} {reads : List (Env × List UInt8)} (h : At p y) (hp : p.back = [])
    (hout : ACK ∉ out.tail) (hgo : y.rcv.Goes reads out R)
    (hrun : y.rcv.receiveFiles reads = .ok rcv) (toR : List Item) :
    (y.reads rcv toR).fromR.length = out.length ∧
      At ⟨p.snd, p.n, p.acks + (out.map ackOf).sum, through p.acks out, R, p.toM, toR⟩
        (y.reads rcv toR) := by
  obtain ⟨htoS, hfromR⟩ := h.quiet hp
  obtain ⟨⟨passed, hc, hacks, -⟩, -⟩ := h.back
  obtain ⟨rcv', hrun', hR, hresponses⟩ := hgo
  obtain rfl : rcv' = rcv := Except.ok.inj (hrun'.symm.trans hrun)
  have hnone : p.acks = passed := by
    rw [hacks, hfromR]
    rfl
  have hnew : (y.reads rcv' toR).fromR = out := by
    show y.fromR ++ (responses rcv'.calls).drop (responses y.rcv.calls).length = out
    rw [hresponses, List.drop_left, hfromR]
    rfl
  refine ⟨by rw [hnew], h.snd, hR, ⟨⟨passed, hc, ?_, ?_⟩, ?_⟩, h.toM, rfl⟩
  · rw [hnew, hnone]
  · show through p.acks out = y.toS ++ through passed (y.reads rcv' toR).fromR
    rw [hnew, hnone, htoS]
    rfl
  · rw [hnew]
    exact hout

/-- When something comes back, the sender or the medium can move. -/
theorem At.can_answer (h : At p y) (hp : p.back = c :: back) (hgo : y.snd.Goes c items S) :
    ∃ mv y', y.KindStep mv y' := by
  obtain ⟨⟨passed, hc, hacks, hback⟩, -⟩ := h.back
  rw [hp] at hback
  cases htoS : y.toS with
  | nil =>
    cases hfromR : y.fromR with
    | nil =>
      rw [htoS, hfromR] at hback
      cases hback
    | cons d ds => exact can_pass (by simp [hfromR])
  | cons d toS =>
    rw [htoS] at hback
    obtain ⟨rfl, -⟩ := List.cons.inj hback
    obtain ⟨s', hs, -⟩ := hgo
    refine ⟨.answer, y.sends s' toS, Sys.Step.kind ?_ nofun⟩
    rw [Sys.Step, Sys.exec, htoS]
    show (y.snd.proceed c).toOption.map (y.sends · toS) = _
    rw [hs]
    rfl

end At

end YModem.Part2
