import Mathlib.Logic.Function.Basic
import YModem.MyIO.Steps

/-!
# The map of the descriptors (`desInfoMap` of `myIO.cpp`)

The kernel gives a number to each end of a pair of sockets, and gives it out again when it
has been closed. `mySocketpair` first gets the two numbers and then enters both in the map,
with `mapMutex` held; all other functions hold `mapMutex` while they use the map. A call of
`reading`, `writing` or `draining` has the mutex of its object before it gives up
`mapMutex`, so that it begins in one step.
-/

namespace YModem.MyIO

open YModem.Lib YModem.Peer

/-- One of the two ends of the pair of sockets number `idx`, and its object. -/
structure End where
  idx : Nat
  side : Bool
deriving DecidableEq, Repr

def End.mate (o : End) : End := { o with side := !o.side }

/-- What a descriptor stands for in the kernel. -/
inductive Ref where
  | sock (o : End)
  | file
deriving DecidableEq, Repr

/-- A call of `mySocketpair` that has got its two descriptors and waits for `mapMutex`. -/
structure Opening where
  idx : Nat
  des0 : Nat
  des1 : Nat
deriving DecidableEq, Repr

/-- All descriptors of the process. `none` in `desInfoMap` is a key that is not there, and
`some none` a null pointer. -/
structure Sys where
  made : Nat
  table : Int → Option Ref
  opening : List Opening
  desInfoMap : Int → Option (Option End)
  objs : End → SocketInfo
  /-- A null pointer has been dereferenced, or the object of another pair has been used. -/
  fault : Bool

inductive SysEvent where
  /-- `socketpair` has returned two descriptors. -/
  | socketpair (des0 des1 : Nat)
  /-- The rest of `mySocketpair`. -/
  | mySocketpair (idx : Nat)
  /-- `myOpen` or `myCreat`, or another call that opens a descriptor. -/
  | myOpen (des : Int)
  /-- `myRead` or `myReadcond`. -/
  | myRead (des : Int) (r : ReadCall) (pick : Nat)
  | myWrite (des : Int) (buf : List UInt8)
  | myTcdrain (des : Int) (tid : Nat)
  | myClose (des : Int) (pick : Nat)
  /-- A thread goes on in a call on the object. -/
  | inside (o : End) (e : Event)
deriving DecidableEq, Repr

/-- The pieces of the member functions behind their beginning. -/
def Event.goesOn : Event → Bool
  | .wrote .. | .gotRead .. | .readWakes .. | .readTimesOut .. | .drainWakes .. => true
  | _ => false

namespace Sys

def init : Sys := ⟨0, fun _ => none, [], fun _ => none, fun _ => .init 0, false⟩

variable (v : Version) (K : Kernel) (s : Sys)

/-- One step on one object. -/
def call (o : End) (e : Event) : Option Sys :=
  (step v K (s.objs o) e).map fun m => { s with objs := Function.update s.objs o m }

/-- The object of `des`, and what follows. -/
def own (des : Int) (f : End → Option Sys) : Option Sys :=
  match s.desInfoMap des with
  | some (some o) => if s.table des = some (.sock o) then f o else some { s with fault := true }
  | _ => none

/-- `desInfoMap[pair]` in a call on `des`, and what follows. The operator inserts a null
pointer for a key that is not there. -/
def atPair (des pair : Int) (f : End → Option Sys) : Option Sys :=
  match s.desInfoMap pair with
  | some (some q) => if s.table des = some (.sock q.mate) then f q else some { s with fault := true }
  | some none => some { s with fault := true }
  | none => some { s with
      desInfoMap := Function.update s.desInfoMap pair (some none), fault := true }

def kernelClose (des : Int) : Sys := { s with table := Function.update s.table des none }

def erase (des : Int) : Sys := { s with desInfoMap := Function.update s.desInfoMap des none }

/-- `closing` on the object `o` of `des`, which has been erased from the map. -/
def closing (des : Int) (o : End) (pick : Nat) : Option Sys :=
  if (s.objs o).pair = -2 then
    if (s.objs o).socketInfoMutex = .free ∧ (s.objs o).cvRead = [] then some (s.kernelClose des)
    else none
  else s.atPair des (s.objs o).pair fun q =>
    match step v K (s.objs o) .close, step v K (s.objs q) (.closePair pick) with
    | some m, some m' =>
      some ({ s with objs := Function.update (Function.update s.objs o m) q m' }.kernelClose des)
    | _, _ => none

/-- `myClose`. -/
def myClose (des : Int) (pick : Nat) : Option Sys :=
  match s.desInfoMap des with
  | none => some (s.kernelClose des)
  | some none => some ((s.erase des).kernelClose des)
  | some (some _) => s.own des fun o => (s.erase des).closing v K des o pick

/-- The end of `mySocketpair`. -/
def enter (x : Opening) : Sys :=
  { s with
    opening := s.opening.filter (· != x)
    desInfoMap := Function.update (Function.update s.desInfoMap x.des0 (some (some ⟨x.idx, false⟩)))
      x.des1 (some (some ⟨x.idx, true⟩))
    objs := Function.update (Function.update s.objs ⟨x.idx, false⟩ (.init x.des1))
      ⟨x.idx, true⟩ (.init x.des0) }

end Sys

/-- One step, if it can be taken. Calls on a descriptor that is not in the map go to the
kernel and touch nothing here. -/
def sysStep (v : Version) (K : Kernel) (s : Sys) (e : SysEvent) : Option Sys :=
  if s.fault then none else
  match e with
  | .socketpair des0 des1 =>
    if des0 ≠ des1 ∧ s.table des0 = none ∧ s.table des1 = none then
      some { s with
        made := s.made + 1
        table := Function.update (Function.update s.table des0 (some (.sock ⟨s.made, false⟩)))
          des1 (some (.sock ⟨s.made, true⟩))
        opening := s.opening ++ [⟨s.made, des0, des1⟩] }
    else none
  | .mySocketpair idx =>
    match s.opening.find? (·.idx == idx) with
    | some x => some (s.enter x)
    | none => none
  | .myOpen des =>
    if 0 ≤ des ∧ s.table des = none then
      some { s with table := Function.update s.table des (some .file) }
    else none
  | .myRead des r pick => s.own des fun o => s.call v K o (.read r pick)
  | .myWrite des buf => s.own des fun o =>
    if (s.objs o).pair = -2 then none
    else s.atPair des (s.objs o).pair fun q => s.call v K q (.write buf)
  | .myTcdrain des tid => s.own des fun o =>
    if (s.objs o).pair = -2 then none
    else s.atPair des (s.objs o).pair fun q => s.call v K q (.tcdrain tid)
  | .myClose des pick => s.myClose v K des pick
  | .inside o e => if e.goesOn then s.call v K o e else none

/-- The steps as a relation. -/
def SysStep (v : Version) (K : Kernel) (s : Sys) (e : SysEvent) (s' : Sys) : Prop :=
  sysStep v K s e = some s'

/-! ## What one step does -/

inductive SysEffect (v : Version) (K : Kernel) (s : Sys) : SysEvent → Sys → Prop where
  | socketpair {des0 des1 : Nat} (hne : des0 ≠ des1) (h0 : s.table des0 = none)
      (h1 : s.table des1 = none) : SysEffect v K s (.socketpair des0 des1) { s with
        made := s.made + 1
        table := Function.update (Function.update s.table des0 (some (.sock ⟨s.made, false⟩)))
          des1 (some (.sock ⟨s.made, true⟩))
        opening := s.opening ++ [⟨s.made, des0, des1⟩] }
  | enter {x} (hx : x ∈ s.opening) : SysEffect v K s (.mySocketpair x.idx) (s.enter x)
  | opens {des} (hd : 0 ≤ des) (h : s.table des = none) :
      SysEffect v K s (.myOpen des) { s with table := Function.update s.table des (some .file) }
  | call {e o e' m} (hs : Step v K (s.objs o) e' m) (hp : m.pair = (s.objs o).pair) :
      SysEffect v K s e { s with objs := Function.update s.objs o m }
  | closeOther {des pick} (hd : ∀ o, s.desInfoMap des ≠ some (some o)) :
      SysEffect v K s (.myClose des pick) ((s.erase des).kernelClose des)
  | closeSecond {des pick o} (hd : s.desInfoMap des = some (some o))
      (ht : s.table des = some (.sock o)) (hp : (s.objs o).pair = -2) :
      SysEffect v K s (.myClose des pick) ((s.erase des).kernelClose des)
  | closeFirst {des pick o q m m'} (hd : s.desInfoMap des = some (some o))
      (ht : s.table des = some (.sock o)) (hp : (s.objs o).pair ≠ -2)
      (hq : s.desInfoMap (s.objs o).pair = some (some q)) (hm : s.table des = some (.sock q.mate))
      (hs : Step v K (s.objs o) .close m) (hs' : Step v K (s.objs q) (.closePair pick) m') :
      SysEffect v K s (.myClose des pick) ({ s.erase des with
        objs := Function.update (Function.update s.objs o m) q m' }.kernelClose des)
  | wrongObject {e des o s'} (hd : s.desInfoMap des = some (some o))
      (ht : s.table des ≠ some (.sock o)) (hobjs : s'.objs = s.objs) : SysEffect v K s e s'
  | wrongPair {e des o s'} (hd : s.desInfoMap des = some (some o))
      (ht : s.table des = some (.sock o)) (hp : (s.objs o).pair ≠ -2)
      (hq : ∀ q, s.desInfoMap (s.objs o).pair = some (some q) → (s.objs o).pair ≠ des →
        s.table des ≠ some (.sock q.mate)) (hobjs : s'.objs = s.objs) : SysEffect v K s e s'

section Steps

variable {v : Version} {K : Kernel} {s s' : Sys} {e : SysEvent}

theorem Event.goesOn_pair {m m' : SocketInfo} {e : Event} (hs : Step v K m e m')
    (he : e ≠ .close) (he' : ∀ pick, e ≠ .closePair pick) : m'.pair = m.pair := by
  rcases hs.effect.pair_eq with h | ⟨-, -, ⟨rfl, -⟩ | ⟨pick, rfl, -⟩⟩
  · exact h
  · exact absurd rfl he
  · exact absurd rfl (he' pick)

theorem Sys.own_inv {des : Int} {f : End → Option Sys} (h : s.own des f = some s') :
    (∃ o, s.desInfoMap des = some (some o) ∧ s.table des = some (.sock o) ∧ f o = some s') ∨
      ∃ o, s.desInfoMap des = some (some o) ∧ s.table des ≠ some (.sock o) ∧
        s' = { s with fault := true } := by
  unfold Sys.own at h
  split at h
  case h_1 o hd =>
    split_ifs at h with ht
    · exact .inl ⟨o, hd, ht, h⟩
    · cases h
      exact .inr ⟨o, hd, ht, rfl⟩
  case h_2 => cases h

theorem Sys.atPair_inv {des pair : Int} {f : End → Option Sys} (h : s.atPair des pair f = some s') :
    (∃ q, s.desInfoMap pair = some (some q) ∧ s.table des = some (.sock q.mate) ∧ f q = some s') ∨
      ((∀ q, s.desInfoMap pair = some (some q) → s.table des ≠ some (.sock q.mate)) ∧
        s'.objs = s.objs) := by
  unfold Sys.atPair at h
  split at h
  case h_1 q hq =>
    split_ifs at h with ht
    · exact .inl ⟨q, hq, ht, h⟩
    · cases h
      refine .inr ⟨fun q' hq' => ?_, rfl⟩
      rw [hq] at hq'
      cases hq'
      exact ht
  case h_2 hq =>
    cases h
    refine .inr ⟨fun q' hq' => ?_, rfl⟩
    rw [hq] at hq'
    cases hq'
  case h_3 hq =>
    cases h
    refine .inr ⟨fun q' hq' => ?_, rfl⟩
    rw [hq] at hq'
    cases hq'

theorem Sys.call_inv {o : End} {e : Event} (h : s.call v K o e = some s') :
    ∃ m, Step v K (s.objs o) e m ∧ s' = { s with objs := Function.update s.objs o m } := by
  obtain ⟨m, hm, rfl⟩ := Option.map_eq_some_iff.mp h
  exact ⟨m, hm, rfl⟩

/-- A call on the object of the pair. -/
theorem Sys.pairCall_effect {des : Int} {o : End} {e' : Event}
    (hd : s.desInfoMap des = some (some o)) (ht : s.table des = some (.sock o))
    (he : e' ≠ .close) (he' : ∀ pick, e' ≠ .closePair pick)
    (h : (if (s.objs o).pair = -2 then none
      else s.atPair des (s.objs o).pair fun q => s.call v K q e') = some s') : SysEffect v K s e s' := by
  split_ifs at h with hp
  rcases Sys.atPair_inv h with ⟨q, -, -, hcall⟩ | ⟨hq, hobjs⟩
  · obtain ⟨m, hm, rfl⟩ := Sys.call_inv hcall
    exact .call hm (Event.goesOn_pair hm he he')
  · exact .wrongPair hd ht hp (fun q hq' _ => hq q hq') hobjs

theorem Sys.erase_of_none {des : Int} (h : s.desInfoMap des = none) : s.erase des = s := by
  rw [Sys.erase, ← h, Function.update_eq_self]

theorem Sys.myClose_effect {des : Int} {pick : Nat} (h : s.myClose v K des pick = some s') :
    SysEffect v K s (.myClose des pick) s' := by
  unfold Sys.myClose at h
  split at h
  case h_1 hd =>
    cases h
    have heff : SysEffect v K s (.myClose des pick) ((s.erase des).kernelClose des) :=
      .closeOther fun o ho => by rw [hd] at ho; cases ho
    rwa [Sys.erase_of_none hd] at heff
  case h_2 hd =>
    cases h
    exact .closeOther fun o ho => by rw [hd] at ho; cases ho
  case h_3 =>
    rcases Sys.own_inv h with ⟨o, hd, ht, h⟩ | ⟨o, hd, ht, rfl⟩
    · unfold Sys.closing at h
      split_ifs at h with hp hfree
      · cases h
        exact .closeSecond hd ht hp
      · rcases Sys.atPair_inv h with ⟨q, hq, hm, h⟩ | ⟨hq, hobjs⟩
        · have hq : Function.update s.desInfoMap des none (s.objs o).pair = some (some q) := hq
          have hne : (s.objs o).pair ≠ des := by
            intro heq
            rw [heq, Function.update_self] at hq
            cases hq
          rw [Function.update_of_ne hne] at hq
          split at h
          case h_1 m m' hs hs' =>
            cases h
            exact .closeFirst hd ht hp hq hm hs hs'
          case h_2 => cases h
        · refine .wrongPair hd ht hp (fun q hq' hne => hq q ?_) hobjs
          show Function.update s.desInfoMap des none (s.objs o).pair = _
          rwa [Function.update_of_ne hne]
    · exact .wrongObject hd ht rfl

theorem SysStep.effect (h : SysStep v K s e s') : s.fault = false ∧ SysEffect v K s e s' := by
  unfold SysStep sysStep at h
  split_ifs at h with hf
  refine ⟨by simpa using hf, ?_⟩
  cases e with
  | socketpair des0 des1 =>
    dsimp only at h
    split_ifs at h with hd
    cases h
    exact .socketpair hd.1 hd.2.1 hd.2.2
  | mySocketpair idx =>
    dsimp only at h
    split at h
    case h_1 x hx =>
      cases h
      obtain rfl : x.idx = idx := by simpa using List.find?_some hx
      exact .enter (List.mem_of_find?_eq_some hx)
    case h_2 => cases h
  | myOpen des =>
    dsimp only at h
    split_ifs at h with hd
    cases h
    exact .opens hd.1 hd.2
  | myRead des r pick =>
    rcases Sys.own_inv h with ⟨o, -, -, hcall⟩ | ⟨o, hd, ht, rfl⟩
    · obtain ⟨m, hm, rfl⟩ := Sys.call_inv hcall
      exact .call hm (Event.goesOn_pair hm (by simp) (by simp))
    · exact .wrongObject hd ht rfl
  | myWrite des buf =>
    rcases Sys.own_inv h with ⟨o, hd, ht, hcall⟩ | ⟨o, hd, ht, rfl⟩
    · exact Sys.pairCall_effect hd ht (by simp) (by simp) hcall
    · exact .wrongObject hd ht rfl
  | myTcdrain des tid =>
    rcases Sys.own_inv h with ⟨o, hd, ht, hcall⟩ | ⟨o, hd, ht, rfl⟩
    · exact Sys.pairCall_effect hd ht (by simp) (by simp) hcall
    · exact .wrongObject hd ht rfl
  | myClose des pick => exact Sys.myClose_effect h
  | inside o e =>
    dsimp only at h
    split_ifs at h with he
    obtain ⟨m, hm, rfl⟩ := Sys.call_inv h
    refine .call hm (Event.goesOn_pair hm ?_ fun pick => ?_)
    · rintro rfl
      cases he
    · rintro rfl
      cases he

end Steps

end YModem.MyIO
