import YModem.Lib.Log
import YModem.Sender.Runtime
import YModem.Sender.Script

/-!
# The sender follows the script of its batch

`Awaits` ties each leaf of the chart to what has been sent last and to what is still to be
sent; every transition advances along the script.
-/

namespace YModem.Sender

open YModem.Lib YModem.Peer YModem.SmartState

/-- Whether a call sends a block or an EOT. The sender passes nothing but EOT to
`sendByte`. -/
def transmits : Call → Bool
  | .sendBlk _ _ | .sendByte _ => true
  | _ => false

def transmissions (calls : List Call) : List Call := calls.filter transmits

@[simp] theorem transmissions_append (calls new : List Call) :
    transmissions (calls ++ new) = transmissions calls ++ transmissions new :=
  List.filter_append ..

/-- An item that is sent for the first time. -/
def firstCall : Item → Call
  | .blk bytes => .sendBlk true bytes
  | .eot => .sendByte EOT

/-- An item that is sent once more. -/
def againCall : Item → Call
  | .blk bytes => .sendBlk false bytes
  | .eot => .sendByte EOT

/-- The item a call sends. -/
def itemOf : Call → Item
  | .sendBlk _ bytes => .blk bytes
  | _ => .eot

/-! ## What each leaf waits for -/

/-- The files that `prepStatBlk` has not taken yet. -/
def SenderY.todo (s : SenderY) : List File := s.fileNames.drop s.fileNameIndex

/-- The leaf the sender is in, or will be in again when it leaves `CAN`. -/
def Config.phase (v : Config) : Option SState := if v.leaf = some .can then v.back else v.leaf

/-- Leaf, item sent last and rest of the script. -/
inductive Awaits (s : SenderY) : SState → Option Item → List (Item × Mesg) → Prop where
  | unopened {last rest} (hfd : s.transferringFileD = -1) : Awaits s .statC last rest
  | stat {f last} (h : Prepared f s) : Awaits s .statC last
      ((.blk (f.blk 0), .ser NCG) :: (f.dataScript 0 ++ batchScript s.todo))
  | lastStat {last} (h : LastPrepared s) : Awaits s .statC last [(.blk lastStatBlk, .ser NCG)]
  | statAnswer {f} (h : Reading f 0 s) :
      Awaits s .acknakstat (some (.blk (f.blk 0))) (f.dataScript 0 ++ batchScript s.todo)
  | lastAnswer (h : LastSent s) : Awaits s .acknakstat (some (.blk lastStatBlk)) []
  | firstRequest {f} (h : Reading f 0 s) :
      Awaits s .one (some (.blk (f.blk 0))) (f.dataScript 0 ++ batchScript s.todo)
  | blkAnswer {f k} (hk : k < f.numChunks) (h : Reading f (k + 1) s) :
      Awaits s .acknak (some (.blk (f.blk (k + 1)))) (f.dataScript (k + 1) ++ batchScript s.todo)
  | eotAnswer : Awaits s .eot1 (some .eot) (batchScript s.todo)
  | secondEotAnswer : Awaits s .eoteot (some .eot) (batchScript s.todo)

/-- Only members that have nothing to do with the files have changed. -/
def SameFile (s s' : SenderY) : Prop :=
  ∃ p b, s' = { s with toPeerY := p, firstBlk := b } ∧ p.transferringFileD = s.transferringFileD

theorem Reading.frame {f : File} {k : Nat} {s s' : SenderY} (h : Reading f k s)
    (hs : SameFile s s') : Reading f k s' := by
  obtain ⟨p, b, rfl, -⟩ := hs
  exact ⟨h.fileName, h.blkNum, h.bytesRd, h.unread, h.sent, h.next⟩

theorem LastSent.frame {s s' : SenderY} (h : LastSent s) (hs : SameFile s s') : LastSent s' := by
  obtain ⟨p, b, rfl, -⟩ := hs
  exact ⟨h.fileName, h.blkNum, h.stat⟩

theorem SameFile.todo {s s' : SenderY} (hs : SameFile s s') : s'.todo = s.todo := by
  obtain ⟨p, b, rfl, -⟩ := hs
  rfl

theorem Awaits.frame {s s' : SenderY} {st : SState} {last : Option Item}
    {rest : List (Item × Mesg)} (h : Awaits s st last rest) (hs : SameFile s s') :
    Awaits s' st last rest := by
  have htodo := hs.todo
  cases h with
  | unopened hfd =>
    obtain ⟨p, b, rfl, hp⟩ := hs
    exact .unopened (hp.trans hfd)
  | stat h =>
    rw [← htodo]
    obtain ⟨p, b, rfl, -⟩ := hs
    exact .stat ⟨h.fileName, h.blkNum, h.unread, h.stat⟩
  | lastStat h =>
    obtain ⟨p, b, rfl, -⟩ := hs
    exact .lastStat ⟨h.fileName, h.blkNum, h.stat⟩
  | statAnswer h => exact htodo ▸ .statAnswer (h.frame hs)
  | lastAnswer h => exact .lastAnswer (h.frame hs)
  | firstRequest h => exact htodo ▸ .firstRequest (h.frame hs)
  | blkAnswer hk h => exact htodo ▸ .blkAnswer hk (h.frame hs)
  | eotAnswer => exact htodo ▸ .eotAnswer
  | secondEotAnswer => exact htodo ▸ .secondEotAnswer

/-- The batch consists of files that can be opened: the empty path cannot. -/
def Named (files : List File) : Prop := ∀ f ∈ files, f.name ≠ []

/-- A configuration on its way through the script. -/
structure OnScript (v : Config) (last : Option Item) (rest : List (Item × Mesg)) : Prop where
  named : Named v.ctx.fileNames
  awaits : ∀ st ∈ v.phase, Awaits v.ctx st last rest

section Members

variable {env : Env} {s s' : SenderY}

theorem todo_cons {f : File} (h : s.fileNames[s.fileNameIndex]? = some f) :
    s.todo = f :: s.fileNames.drop (s.fileNameIndex + 1) := by
  obtain ⟨hlt, hf⟩ := List.getElem?_eq_some_iff.mp h
  rw [SenderY.todo, List.drop_eq_getElem_cons hlt, hf]

theorem todo_nil (h : s.fileNames[s.fileNameIndex]? = none) : s.todo = [] :=
  List.drop_eq_nil_of_le (List.getElem?_eq_none_iff.mp h)

/-- What `prepStatBlk` leaves to be sent. -/
theorem awaits_of_statPrepared (last : Option Item) (hn : Named s.fileNames)
    (h : StatPrepared env s s') : Awaits s' .statC last (batchScript s.todo) := by
  by_cases hfd : s'.transferringFileD = -1
  · exact .unopened hfd
  · cases hfile : s.fileNames[s.fileNameIndex]? with
    | none =>
      rw [todo_nil hfile]
      exact .lastStat (lastPrepared_of_statPrepared hfile h)
    | some f =>
      have hp := prepared_of_statPrepared hfile (hn f (List.mem_of_getElem? hfile)) hfd h
      have htodo : s'.todo = s.fileNames.drop (s.fileNameIndex + 1) := by
        cases h with
        | noMore _ hfile' _ => cases hfile.symm.trans hfile'
        | _ => rfl
      rw [todo_cons hfile, batchScript_cons, ← htodo]
      exact .stat hp

theorem statPrepared_fileNames (h : StatPrepared env s s') : s'.fileNames = s.fileNames := by
  cases h <;> rfl

theorem statPrepared_transmissions (h : StatPrepared env s s') :
    transmissions s'.calls = transmissions s.calls := by
  cases h <;> simp [transmissions, transmits]

theorem nextSent_calls (h : NextSent s s') : s'.calls = s.calls ++ [.sendBlk true s.current] := by
  cases h <;> rfl

theorem nextSent_batch (h : NextSent s s') :
    s'.fileNames = s.fileNames ∧ s'.todo = s.todo := by
  cases h <;> exact ⟨rfl, rfl⟩

theorem close_transmissions (h : s.closeTransferredFile env = .ok s') :
    transmissions s'.calls = transmissions s.calls := by
  rcases SenderY.closeTransferredFile_spec.mp h with ⟨-, rfl⟩ | ⟨-, -, rfl⟩
  · rfl
  · simp [transmissions, transmits]

theorem cancel_transmissions {text : String} (h : cancel env text s = .ok s') :
    transmissions s'.calls = transmissions s.calls := by
  obtain ⟨t, ht, h⟩ := bind_inv h
  cases h
  simpa [transmissions, transmits] using close_transmissions ht

theorem close_batch (h : s.closeTransferredFile env = .ok s') :
    s'.fileNames = s.fileNames ∧ s'.todo = s.todo := by
  rcases SenderY.closeTransferredFile_spec.mp h with ⟨-, rfl⟩ | ⟨-, -, rfl⟩ <;> exact ⟨rfl, rfl⟩

end Members

/-! ## Every transition advances -/

section Advance

variable {env : Env} {mesg : Mesg} {v v' : Config} {last : Option Item}
  {rest rest' : List (Item × Mesg)} {s s' : SenderY}

/-- A step along the script. -/
private def Proceeds (mesg : Mesg) (v : Config) (last : Option Item) (rest : List (Item × Mesg))
    (v' : Config) : Prop :=
  ∃ out, transmissions v'.ctx.calls = transmissions v.ctx.calls ++ out ∧
    Advances firstCall againCall OnScript last rest (mesg, out) v'

private theorem proceeds_quiet (hq : transmissions v'.ctx.calls = transmissions v.ctx.calls)
    (ho : OnScript v' last rest) : Proceeds mesg v last rest v' :=
  ⟨[], by rw [hq, List.append_nil], .inl ⟨rfl, ho⟩⟩

private theorem proceeds_again {i : Item}
    (hq : transmissions v'.ctx.calls = transmissions v.ctx.calls ++ [againCall i])
    (ho : OnScript v' (some i) rest) : Proceeds mesg v (some i) rest v' :=
  ⟨_, hq, .inr (.inl ⟨i, rfl, rfl, ho⟩)⟩

private theorem proceeds_next {i : Item}
    (hq : transmissions v'.ctx.calls = transmissions v.ctx.calls ++ [firstCall i])
    (ho : OnScript v' (some i) rest) : Proceeds mesg v last ((i, mesg) :: rest) v' :=
  ⟨_, hq, .inr (.inr ⟨i, rest, rfl, rfl, ho⟩)⟩

/-- Nothing more is sent by a machine that has stopped. -/
private theorem onScript_stopped {back : Option SState} (hn : Named s.fileNames) :
    OnScript ⟨none, back, s⟩ last rest :=
  ⟨hn, by simp [Config.phase]⟩

private theorem onScript_active {st : SState} {back : Option SState} (hst : st ≠ .can)
    (hn : Named s.fileNames) (ha : Awaits s st last rest) : OnScript ⟨some st, back, s⟩ last rest := by
  refine ⟨hn, fun st' hst' => ?_⟩
  rw [Config.phase, if_neg (by simpa using hst)] at hst'
  cases hst'
  exact ha

private theorem proceeds_stopped {leaf : SState} {back back' : Option SState}
    (hn : Named s'.fileNames) (hq : transmissions s'.calls = transmissions s.calls) :
    Proceeds mesg ⟨some leaf, back, s⟩ last rest ⟨none, back', s'⟩ :=
  proceeds_quiet hq (onScript_stopped hn)

/-- A session that is cancelled. -/
private theorem proceeds_cancelled {leaf : SState} {back : Option SState} {text : String}
    (hn : Named s.fileNames) (hs : cancel env text s = .ok s') :
    Proceeds mesg ⟨some leaf, back, s⟩ last rest ⟨none, back, s'⟩ := by
  have hq := cancel_transmissions hs
  obtain ⟨t, ht, hs⟩ := bind_inv hs
  cases hs
  have hnames := (close_batch ht).1
  exact proceeds_stopped (by simpa [hnames] using hn) hq

/-- The leaf and the files stay as they are. -/
private theorem proceeds_framed {leaf leaf' : SState} {back back' : Option SState}
    (ho : OnScript ⟨some leaf, back, s⟩ last rest)
    (hphase : (Config.mk (some leaf') back' s').phase = (Config.mk (some leaf) back s).phase)
    (hs : SameFile s s') (hq : transmissions s'.calls = transmissions s.calls) :
    Proceeds mesg ⟨some leaf, back, s⟩ last rest ⟨some leaf', back', s'⟩ := by
  refine proceeds_quiet hq ⟨?_, fun st hst => ?_⟩
  · obtain ⟨p, b, rfl, -⟩ := hs
    exact ho.named
  · rw [hphase] at hst
    exact (ho.awaits st hst).frame hs

/-- What a leaf of `NON_CAN` waits for. -/
private theorem OnScript.leaf {st : SState} {back : Option SState} (hst : st ≠ .can)
    (ho : OnScript ⟨some st, back, s⟩ last rest) : Awaits s st last rest :=
  ho.awaits st (by rw [Config.phase, if_neg (by simpa using hst)]; rfl)

/-- A block is sent for the first time. -/
private theorem proceeds_sent {leaf next : SState} {back : Option SState} {bytes : List UInt8}
    {t : SenderY} (ho : OnScript ⟨some leaf, back, s⟩ last ((.blk bytes, mesg) :: rest))
    (hb : s.current = bytes) (hs : s.sendBlkPrepNext = .ok s') (ht : SameFile s' t)
    (hcalls : t.calls = s'.calls) (hnext : next ≠ .can)
    (ha : Awaits t next (some (.blk bytes)) rest) :
    Proceeds mesg ⟨some leaf, back, s⟩ last ((.blk bytes, mesg) :: rest) ⟨some next, back, t⟩ := by
  have hsent := nextSent_calls (SenderY.nextSent hs)
  have hnames := (nextSent_batch (SenderY.nextSent hs)).1
  refine proceeds_next ?_ (onScript_active hnext ?_ ha)
  · show transmissions t.calls = transmissions s.calls ++ _
    rw [hcalls, hsent, hb]
    simp [transmissions, transmits, firstCall]
  · obtain ⟨p, b, rfl, -⟩ := ht
    exact hnames ▸ ho.named

/-- The block sent last is sent again. -/
private theorem proceeds_resent {leaf next : SState} {back : Option SState} {bytes : List UInt8}
    (ho : OnScript ⟨some leaf, back, s⟩ (some (.blk bytes)) rest)
    (hb : (s.blkBufs (bufOf (s.blkNum - 1))).val = bytes) (hnext : next ≠ .can)
    (ha : Awaits s next (some (.blk bytes)) rest) :
    Proceeds mesg ⟨some leaf, back, s⟩ (some (.blk bytes)) rest
      ⟨some next, back, wait env (s.resendBlk.peer (·.incErrCnt))⟩ := by
  refine proceeds_again ?_ (onScript_active hnext ho.named (ha.frame ⟨_, _, rfl, rfl⟩))
  show transmissions (s.calls ++ [.sendBlk false _]) = _
  rw [hb]
  simp [transmissions, transmits, againCall]

/-- The file is closed and its first EOT sent. -/
private theorem proceeds_eot {leaf : SState} {back : Option SState} {t u : SenderY}
    (ho : OnScript ⟨some leaf, back, s⟩ last ((.eot, mesg) :: batchScript s.todo))
    (hs : t.closeTransferredFile env = .ok s') (ht : SameFile s t) (hu : SameFile s' u)
    (hsent : t.calls = s.calls ++ [.sendByte EOT]) (hcalls : u.calls = s'.calls) :
    Proceeds mesg ⟨some leaf, back, s⟩ last ((.eot, mesg) :: batchScript s.todo)
      ⟨some .eot1, back, u⟩ := by
  have hq := close_transmissions hs
  obtain ⟨hnames, htodo⟩ := close_batch hs
  refine proceeds_next ?_ (onScript_active (by decide) ?_ ?_)
  · show transmissions u.calls = transmissions s.calls ++ _
    rw [hcalls, hq, hsent]
    simp [transmissions, transmits, firstCall]
  · obtain ⟨p, b, rfl, -⟩ := hu
    obtain ⟨q, d, rfl, -⟩ := ht
    exact hnames ▸ ho.named
  · rw [← ht.todo, ← htodo, ← hu.todo]
    exact .eotAnswer

/-- An EOT is sent once more. -/
private theorem proceeds_eot_again {leaf next : SState} {back : Option SState} {t : SenderY}
    (ho : OnScript ⟨some leaf, back, s⟩ (some .eot) rest) (ht : SameFile s t)
    (hsent : t.calls = s.calls ++ [.sendByte EOT]) (hnext : next ≠ .can)
    (ha : Awaits s next (some .eot) rest) :
    Proceeds mesg ⟨some leaf, back, s⟩ (some .eot) rest ⟨some next, back, t⟩ := by
  refine proceeds_again ?_ (onScript_active hnext ?_ (ha.frame ht))
  · show transmissions t.calls = transmissions s.calls ++ _
    rw [hsent]
    simp [transmissions, transmits, againCall]
  · obtain ⟨p, b, rfl, -⟩ := ht
    exact ho.named

/-- The next stat block is prepared. -/
private theorem proceeds_prepared {leaf : SState} {back : Option SState} {t : SenderY}
    (hn : Named s.fileNames) (hs : t.prepStatBlk env = .ok s')
    (hcalls : transmissions t.calls = transmissions s.calls)
    (htodo : t.todo = s.todo) (hnames : t.fileNames = s.fileNames) :
    Proceeds mesg ⟨some leaf, back, s⟩ last (batchScript s.todo) ⟨some .statC, back, wait env s'⟩ := by
  have hp := SenderY.statPrepared hs
  have hq := statPrepared_transmissions hp
  have hf := statPrepared_fileNames hp
  refine proceeds_quiet (hq.trans hcalls) (onScript_active (by decide) ?_ ?_)
  · show Named s'.fileNames
    rwa [hf, hnames]
  · rw [← htodo]
    exact (awaits_of_statPrepared last (hnames ▸ hn) hp).frame ⟨_, _, rfl, rfl⟩

theorem Trans.advances (h : Trans env mesg v v') (hw : v.WellFormed) (ho : OnScript v last rest) :
    ∃ out, transmissions v'.ctx.calls = transmissions v.ctx.calls ++ out ∧
      Advances firstCall againCall OnScript last rest (mesg, out) v' := by
  have hn := ho.named
  cases h with
  | ignored => exact proceeds_quiet rfl ho
  | kbCancel hl _ _ => exact proceeds_framed ho rfl ⟨_, _, rfl, rfl⟩ rfl
  | kbCancelCan => exact proceeds_framed ho rfl ⟨_, _, rfl, rfl⟩ rfl
  | kbCancelOpenErr hfd => exact proceeds_stopped hn (by simp [transmissions, transmits])
  | kbCancelStatC _ hs =>
    apply proceeds_stopped ((close_batch hs).1 ▸ hn)
    simpa [transmissions, transmits] using close_transmissions hs
  | openError hf hfd => exact proceeds_stopped hn (by simp [transmissions, transmits])
  | @statSent back s s' hfd hs =>
    have htodo := (nextSent_batch (SenderY.nextSent hs)).2
    cases ho.leaf (by decide) with
    | unopened h => exact absurd h hfd
    | stat hp =>
      refine proceeds_sent ho hp.current hs ⟨_, _, rfl, rfl⟩ rfl (by decide) ?_
      rw [← htodo]
      exact .statAnswer ((hp.sendBlkPrepNext hs).frame ⟨_, _, rfl, rfl⟩)
    | lastStat hp =>
      exact proceeds_sent ho hp.current hs ⟨_, _, rfl, rfl⟩ rfl (by decide)
        (.lastAnswer ((hp.sendBlkPrepNext hs).frame ⟨_, _, rfl, rfl⟩))
  | statAcked hf hk =>
    cases ho.leaf (by decide) with
    | statAnswer hr =>
      exact proceeds_quiet rfl (onScript_active (by decide) hn
        (.firstRequest (hr.frame ⟨_, _, rfl, rfl⟩)))
    | lastAnswer hs => exact absurd hs.fileName hf
  | statResent hc hk =>
    cases ho.leaf (by decide) with
    | statAnswer hr => exact proceeds_resent ho hr.previous (by decide) (.statAnswer hr)
    | lastAnswer hs => exact proceeds_resent ho hs.previous (by decide) (.lastAnswer hs)
  | endOfSession hf => exact proceeds_stopped hn (by simp [transmissions, transmits])
  | @firstBlkSent back s s' hb hk hs =>
    have htodo := (nextSent_batch (SenderY.nextSent hs)).2
    cases ho.leaf (by decide) with
    | @firstRequest f hr =>
      have hlt : 0 < f.numChunks := by
        have := mt hr.bytesRd_eq_zero_iff.mpr hb
        omega
      rw [File.dataScript_next hlt, if_pos rfl, List.cons_append] at ho ⊢
      refine proceeds_sent ho (hr.current hlt) hs ⟨_, _, rfl, rfl⟩ rfl (by decide) ?_
      rw [← htodo]
      exact .blkAnswer hlt ((hr.sendBlkPrepNext hlt hs).frame ⟨_, _, rfl, rfl⟩)
  | statNaked hk =>
    cases ho.leaf (by decide) with
    | firstRequest hr => exact proceeds_resent ho hr.previous (by decide) (.statAnswer hr)
  | blkResent hc he hk =>
    cases ho.leaf (by decide) with
    | blkAnswer hk hr => exact proceeds_resent ho hr.previous (by decide) (.blkAnswer hk hr)
  | @blkAcked back s s' hb hk hs =>
    have htodo := (nextSent_batch (SenderY.nextSent hs)).2
    cases ho.leaf (by decide) with
    | @blkAnswer f k _ hr =>
      have hlt : k + 1 < f.numChunks := by
        have := mt hr.bytesRd_eq_zero_iff.mpr hb
        omega
      rw [File.dataScript_next hlt, if_neg (Nat.succ_ne_zero k), List.cons_append] at ho ⊢
      refine proceeds_sent ho (hr.current hlt) hs ⟨_, _, rfl, rfl⟩ rfl (by decide) ?_
      rw [← htodo]
      exact .blkAnswer hlt ((hr.sendBlkPrepNext hlt hs).frame ⟨_, _, rfl, rfl⟩)
  | eotAcked hk hs =>
    cases ho.leaf (by decide) with
    | eotAnswer => exact proceeds_prepared hn hs rfl rfl rfl
  | fileDone hk hs =>
    cases ho.leaf (by decide) with
    | secondEotAnswer =>
      exact proceeds_prepared hn hs (by simp [transmissions, transmits]) rfl rfl
  | excessiveNAKs hl hnone he hs => exact proceeds_cancelled hn hs
  | kbCancelled hc hk hnone hs => exact proceeds_cancelled hn hs
  | timedOut hk hs => exact proceeds_cancelled hn hs
  | rcvCancelled hs =>
    apply proceeds_stopped ((close_batch hs).1 ▸ hn)
    simpa [transmissions, transmits] using close_transmissions hs
  | @interrupted leaf back s hl =>
    refine proceeds_framed ho ?_ ⟨_, _, rfl, rfl⟩ rfl
    cases leaf <;> cases hl <;> rfl
  | @resumedSER c leaf s _ _ =>
    refine proceeds_framed ho ?_ ⟨_, _, rfl, rfl⟩ rfl
    have hl := hw.remembers leaf rfl
    cases leaf <;> cases hl <;> rfl
  | @resumedTM leaf s _ =>
    refine proceeds_framed ho ?_ ⟨_, _, rfl, rfl⟩ rfl
    have hl := hw.remembers leaf rfl
    cases leaf <;> cases hl <;> rfl
  | @noBlk back s s' hb hk hs =>
    cases ho.leaf (by decide) with
    | @firstRequest f hr =>
      have hend := hr.bytesRd_eq_zero_iff.mp hb
      have hempty : f.contents = [] := f.numChunks_eq_zero_iff.mp (Nat.le_zero.mp hend)
      rw [File.dataScript_end hend, if_pos hempty, List.singleton_append] at ho ⊢
      exact proceeds_eot ho hs ⟨_, _, rfl, rfl⟩ ⟨_, _, rfl, rfl⟩ rfl rfl
  | @lastBlkAcked back s s' hb hk hs =>
    cases ho.leaf (by decide) with
    | @blkAnswer f k hk hr =>
      have hend := hr.bytesRd_eq_zero_iff.mp hb
      have hfull : f.contents ≠ [] := fun h => by
        rw [← f.numChunks_eq_zero_iff] at h
        omega
      rw [File.dataScript_end hend, if_neg hfull, List.singleton_append] at ho ⊢
      exact proceeds_eot ho hs ⟨_, _, rfl, rfl⟩ ⟨_, _, rfl, rfl⟩ rfl rfl
  | eotResent hf he =>
    cases ho.leaf (by decide) with
    | eotAnswer => exact proceeds_eot_again ho ⟨_, _, rfl, rfl⟩ rfl (by decide) .eotAnswer
  | eotNaked hk =>
    cases ho.leaf (by decide) with
    | eotAnswer => exact proceeds_eot_again ho ⟨_, _, rfl, rfl⟩ rfl (by decide) .secondEotAnswer
  | secondEotResent hk he =>
    cases ho.leaf (by decide) with
    | secondEotAnswer =>
      exact proceeds_eot_again ho ⟨_, _, rfl, rfl⟩ rfl (by decide) .secondEotAnswer

end Advance

/-! ## Whole runs -/

/-- The block that `sendBlkPrepNext` has sent last. -/
def lastFresh (calls : List Call) : Option (List UInt8) :=
  (calls.filterMap fun
    | .sendBlk true bytes => some bytes
    | _ => none).getLast?

/-- A block sent by `resendBlk` is the one that `sendBlkPrepNext` has sent last. -/
def ResendsLast (before : List Call) (call : Call) : Prop :=
  ∀ bytes, call = .sendBlk false bytes → lastFresh before = some bytes

/-- On a script, `resendBlk` repeats the block begun last. -/
theorem follows_resendsLast {script : List (Item × Mesg)} {trace : List (Mesg × List Call)} {n : Nat}
    (h : Follows firstCall againCall script trace n) : AtEach ResendsLast (sentIn trace) := by
  suffices hall : AtEach ResendsLast (sentIn trace) ∧ ∀ k bytes c, n = k + 1 →
      script[k]? = some (.blk bytes, c) → lastFresh (sentIn trace) = some bytes from hall.1
  induction h with
  | start => exact ⟨by simp [sentIn], fun k bytes c hk => by omega⟩
  | quiet e h ih => simpa using ih
  | @repeated trace n i c e h hi ih =>
    obtain ⟨hat, hlast⟩ := ih
    rw [sentIn_append, sentIn_singleton, atEach_append]
    cases i with
    | blk bytes =>
      have hfresh := hlast n bytes c rfl hi
      refine ⟨⟨hat, ?_, trivial⟩, fun k bytes' c' hk hi' => ?_⟩
      · intro bytes' heq
        cases heq
        exact hfresh
      · cases hk
        rw [hi] at hi'
        cases hi'
        simpa [lastFresh, againCall] using hfresh
    | eot =>
      refine ⟨⟨hat, ?_, trivial⟩, fun k bytes c' hk hi' => ?_⟩
      · intro bytes heq
        cases heq
      · cases hk
        rw [hi] at hi'
        cases hi'
  | @begun trace n i e h hi ih =>
    rw [sentIn_append, sentIn_singleton, atEach_append]
    refine ⟨⟨ih.1, ?_, trivial⟩, fun k bytes c hk hi' => ?_⟩
    · intro bytes heq
      cases i <;> cases heq
    · cases hk
      rw [hi] at hi'
      cases hi'
      simp [lastFresh, firstCall]

/-- A started sender is at the beginning of its script. -/
theorem Started.onScript {files : List File} {m : Machine} (hn : Named files)
    (h : Started files m) :
    OnScript (configOf m) none (batchScript files) ∧ transmissions m.ctx.calls = [] := by
  obtain ⟨env, blkBufs, h⟩ := h
  obtain ⟨-, s, hs, hc⟩ := start_inv h
  have hp := SenderY.statPrepared hs
  have hctx : m.ctx = startedCtx env s := congrArg Config.ctx hc
  constructor
  · rw [hc]
    refine onScript_active (by decide) ?_ ((awaits_of_statPrepared none hn hp).frame ⟨_, _, rfl, rfl⟩)
    show Named s.fileNames
    rw [statPrepared_fileNames hp]
    exact hn
  · rw [hctx]
    exact statPrepared_transmissions hp

/-- Every step of the machine together with what it transmits. -/
abbrev Speaks : Machine → (Env × Mesg) × List Call → Machine → Prop :=
  Emits ySenderSS.Step fun m => transmissions m.ctx.calls

/-- A machine on its way through the script. -/
private def MachineOnScript (m : Machine) (last : Option Item) (rest : List (Item × Mesg)) : Prop :=
  Settled m ∧ OnScript (configOf m) last rest

private theorem step_advances {m m' : Machine} {e : Env × Mesg} {last : Option Item}
    {rest : List (Item × Mesg)} (hm : MachineOnScript m last rest) (h : ySenderSS.Step m e m') :
    ∃ new, transmissions m'.ctx.calls = transmissions m.ctx.calls ++ new ∧
      Advances firstCall againCall MachineOnScript last rest (e.2, new) m' := by
  obtain ⟨hs, ho⟩ := hm
  obtain ⟨ht, htr⟩ := step_trans hs h
  obtain ⟨new, hnew, hadv⟩ := htr.advances hs.wellFormed ho
  refine ⟨new, hnew, ?_⟩
  rcases hadv with ⟨hq, hJ⟩ | ⟨i, hl, hq, hJ⟩ | ⟨i, rest', hrest, hq, hJ⟩
  · exact .inl ⟨hq, ht, hJ⟩
  · exact .inr (.inl ⟨i, hl, hq, ht, hJ⟩)
  · exact .inr (.inr ⟨i, rest', hrest, hq, ht, hJ⟩)

/-- **The sender's trace.** Whatever events arrive, the transmissions follow the script of
the batch; so they are a beginning of it with each item sent one or more times, and a block
that is sent again is the one sent last. -/
theorem sender_trace {files : List File} {m₀ m : Machine} {es : List (Env × Mesg)}
    (hn : Named files) (h₀ : Started files m₀) (h : Run ySenderSS.Step m₀ es m) :
    ∃ trace, trace.map Prod.fst = es ∧ Run Speaks m₀ trace m ∧
      sentIn trace = transmissions m.ctx.calls ∧ AtEach ResendsLast (sentIn trace) ∧
      ∃ n, Follows firstCall againCall (batchScript files) (trace.map fun l => (l.1.2, l.2)) n ∧
        Repeats ((sentIn trace).map itemOf) (((batchScript files).take n).map Prod.fst) := by
  obtain ⟨hon, hnone⟩ := h₀.onScript hn
  obtain ⟨trace, hes, hr, n, hf⟩ := h.follows firstCall againCall (fun m => transmissions m.ctx.calls)
    Prod.snd MachineOnScript step_advances ⟨h₀.settled, hon⟩
  have hout : sentIn trace = transmissions m.ctx.calls := by
    rw [hr.out_eq, hnone, List.nil_append]
  have hat := follows_resendsLast hf
  have hrep := hf.repeats itemOf (fun i => by cases i <;> rfl) (fun i => by cases i <;> rfl)
  rw [sentIn_map] at hat hrep
  exact ⟨trace, hes, hr, hout, hat, n, hf, hrep⟩

/-- A file of one byte. -/
def smallFile : File := ⟨[97], by decide, [98]⟩

/-- The stat block, an answer, the only data block twice, and its ACK. -/
def smallRun : List (Env × Mesg) :=
  [(.calm, .ser NCG), (.calm, .ser ACK), (.calm, .ser NCG), (.calm, .ser NAK), (.calm, .ser ACK)]

theorem sender_trace_small : ∃ m₀ m, Started [smallFile] m₀ ∧ Run ySenderSS.Step m₀ smallRun m ∧
    m.active = [.eot1] ∧
    ∃ trace, trace.map Prod.fst = smallRun ∧ Run Speaks m₀ trace m ∧
      sentIn trace = transmissions m.ctx.calls ∧ AtEach ResendsLast (sentIn trace) ∧
      ∃ n, Follows firstCall againCall (batchScript [smallFile])
          (trace.map fun l => (l.1.2, l.2)) n ∧
        Repeats ((sentIn trace).map itemOf) (((batchScript [smallFile]).take n).map Prod.fst) := by
  have hrun : (ySenderSS.session .calm (.init [smallFile] fun _ => .blank) smallRun).toOption.any
      (fun m => decide (m.active = [.eot1])) = true := by decide +kernel
  obtain ⟨m₀, m, hstart, hr, -, hc⟩ := Chart.run_of_session hrun
  have h₀ : Started [smallFile] m₀ := ⟨_, _, hstart⟩
  refine ⟨m₀, m, h₀, hr, by simpa using hc, ?_⟩
  exact sender_trace (by simp [Named, smallFile]) h₀ hr

end YModem.Sender
