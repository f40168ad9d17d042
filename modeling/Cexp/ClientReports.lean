import Cexp.ClientConnection
import Cexp.DecimalText
import Cexp.ReceiveBuffer
import Cexp.ReceiveWindow

/-! What each `waitReceive` thread puts into the window: the data it receives, and when it leaves
its loop one message that says why, formatted by `DebugMsg` in a buffer of 64 bytes. -/

namespace Cexp.Client

open Transition

/-- The arguments of `dataReceived`, or those of `DebugMsg`. -/
inductive Shown where
  | data (buffer : List Byte) (num : Nat)
  | message (format : String) (args : List Int)
  deriving DecidableEq

def Event.shown : Event → Option Shown
  | .dataReceived buffer num => some (.data buffer num)
  | .debugMsg format args => some (.message format args)
  | .stateChanged _ => none

def Label.receiver : Label → Option Nat
  | .selected t _ | .received t _ | .available t _ | .receive t => some t
  | _ => none

def shownBy (t : Nat) (s : State) (l : Label) : List Shown :=
  if l.receiver = some t then (events s l).filterMap Event.shown else []

/-- The thread has left its loop. -/
def ReceivePc.left : ReceivePc → Bool
  | .clean _ | .testInit | .cleanup | .clearInit | .ended => true
  | _ => false

/-- What one step of a thread shows, and whether it has left its loop before and after. -/
inductive Shows : List Shown → Bool → Bool → Prop where
  | quiet (b : Bool) : Shows [] b b
  | data (buffer : List Byte) (num : Nat) : Shows [.data buffer num] false false
  | message (format : String) (args : List Int) : Shows [.message format args] false true

/-- Only threads that did not run before are started. -/
structure Spawns (s s' : State) : Prop where
  le : s.threads ≤ s'.threads
  old : ∀ t, t < s.threads ∨ s'.threads ≤ t → s'.receiver t = s.receiver t
  new : ∀ t, s.threads ≤ t → t < s'.threads → (s'.receiver t).pc.left = false

theorem Spawns.of_eq {s s' : State} (hr : s'.receiver = s.receiver) (ht : s'.threads = s.threads) :
    Spawns s s' where
  le := ht.ge
  old _ _ := by rw [hr]
  new _ h h' := absurd (h'.trans_eq ht) (not_lt.mpr h)

theorem Spawns.runReceive (s : State) : Spawns s s.runReceive where
  le := Nat.le_succ _
  old t ht := by
    apply Function.update_of_ne
    rintro rfl
    exact ht.elim (Nat.lt_irrefl _) (Nat.not_succ_le_self _)
  new t h h' := by
    obtain rfl := Nat.le_antisymm h (Nat.le_of_lt_succ h')
    simp [State.runReceive, State.setReceiver, newReceiver, ReceivePc.left]

theorem Spawns.statStep (s : State) (p : StatPc) : Spawns s (Client.statStep s p).1 := by
  cases p with
  | store | test => exact .of_eq rfl rfl
  | runReceive => exact .runReceive s

theorem Spawns.cleanStep (s : State) (p : CleanPc) : Spawns s (Client.cleanStep s p).1 := by
  cases p with
  | clear | load | close => exact .of_eq rfl rfl
  | stateChanged p => exact .statStep s p

theorem Spawns.goOn {s u s' : State} (h : Spawns s u) (hr : s'.receiver = u.receiver)
    (ht : s'.threads = u.threads) : Spawns s s' where
  le := ht ▸ h.le
  old t hlt := by
    rw [hr]
    exact h.old t (ht ▸ hlt)
  new t hle hlt := by
    rw [hr]
    exact h.new t hle (ht ▸ hlt)

theorem Spawns.guiStep {s s' : State} (hs : guiStep s = some s') : Spawns s s' := by
  unfold Client.guiStep at hs
  split at hs <;> cases hs
  case h_5 p _ => exact (Spawns.statStep s p).goOn rfl rfl
  case h_6 p next _ => exact (Spawns.cleanStep s p).goOn rfl rfl
  all_goals exact .of_eq rfl rfl

/-- A step that is no receive thread's. -/
theorem Spawns.step {s s' : State} {l : Label} (hl : l.receiver = none) (hs : step s l = some s') :
    Spawns s s' := by
  cases l with
  | gui => exact .guiStep hs
  | selected | received | available | receive => cases hl
  | toggle | quit | compare | startup | socket | setNonBlock | connect | selectWrite | setBlock =>
    simp only [Client.step] at hs
    repeat' split at hs
    all_goals
      cases hs
      try exact .of_eq rfl rfl

/-- A step of a receive thread: it moves on, after having started others at most. -/
structure Moves (s s' : State) (t : Nat) (shown : List Shown) : Prop where
  runs : (s.receiver t).pc ≠ .notStarted
  spawns : ∃ u th, Spawns s u ∧ s' = u.setReceiver t th ∧
    Shows shown (s.receiver t).pc.left th.pc.left

theorem Moves.of_setReceiver {s : State} {t : Nat} {th : Receiver} {shown : List Shown}
    {p : ReceivePc} (hp : (s.receiver t).pc = p) (hn : p ≠ .notStarted)
    (h : Shows shown p.left th.pc.left) : Moves s (s.setReceiver t th) t shown :=
  ⟨hp ▸ hn, s, th, .of_eq rfl rfl, rfl, hp ▸ h⟩

theorem finish_pc {th th' : Receiver} {available : Option Nat}
    (h : finish th available = some th') : th'.pc = .callback := by
  rw [ReceiveBuffer.finish_eq_bind, Option.bind_eq_some_iff] at h
  obtain ⟨_, -, h⟩ := h
  obtain ⟨_, -, h⟩ := Option.bind_eq_some_iff.mp h
  obtain rfl := Option.some.inj h
  rfl

theorem Moves.receiveStep {s s' : State} {t : Nat} (hs : receiveStep s t = some s') :
    Moves s s' t (shownBy t s (.receive t)) := by
  have hself : (Label.receive t).receiver = some t := rfl
  rw [shownBy, if_pos hself]
  cases hp : (s.receiver t).pc <;> simp only [Client.receiveStep, hp] at hs
  case notStarted | selecting | receiving | available | ended => cases hs
  case isSet =>
    obtain rfl := Option.some.inj hs
    by_cases hset : s.clientFd = (s.receiver t).readSet
    · simp only [events, hp, hset, if_true]
      exact .of_setReceiver hp (by simp) (.quiet false)
    · simp only [events, hp, hset, if_false]
      exact .of_setReceiver hp (by simp) (.message _ _)
  case callback =>
    obtain rfl := Option.some.inj hs
    simp only [events, hp]
    exact .of_setReceiver hp (by simp) (.data _ _)
  case clean p =>
    obtain rfl := Option.some.inj hs
    have hnone : (events s (.receive t)).filterMap Event.shown = [] := by
      simp only [events, hp]
      rcases p with _ | _ | _ | (_ | _ | _) <;> rfl
    rw [hnone]
    refine ⟨by simp [hp], (cleanStep s p).1, _, .cleanStep s p, rfl, ?_⟩
    rw [hp]
    cases (cleanStep s p).2 <;> exact .quiet true
  case testInit =>
    obtain rfl := Option.some.inj hs
    simp only [events, hp]
    refine .of_setReceiver hp (by simp) ?_
    cases s.gwinsockInit <;> exact .quiet true
  case cleanup =>
    obtain rfl := Option.some.inj hs
    simp only [events, hp]
    exact ⟨by simp [hp], s.wsaCleanup, _, .of_eq rfl rfl, rfl, hp ▸ .quiet true⟩
  case clearInit =>
    obtain rfl := Option.some.inj hs
    simp only [events, hp]
    exact ⟨by simp [hp], { s with gwinsockInit := false }, _, .of_eq rfl rfl, rfl,
      hp ▸ .quiet true⟩
  all_goals
    obtain rfl := Option.some.inj hs
    simp only [events, hp]
    exact .of_setReceiver hp (by simp) (.quiet false)

theorem Moves.step {s s' : State} {l : Label} {t : Nat} (hl : l.receiver = some t)
    (hs : step s l = some s') : Moves s s' t (shownBy t s l) := by
  cases l with
  | toggle | quit | compare | startup | socket | setNonBlock | connect | selectWrite | setBlock
  | gui => cases hl
  | receive j =>
    obtain rfl := Option.some.inj hl
    exact .receiveStep hs
  | selected j result =>
    obtain rfl := Option.some.inj hl
    rw [shownBy, if_pos hl]
    simp only [Client.step] at hs
    split at hs
    case h_1 hp =>
      obtain rfl := Option.some.inj hs
      cases result with
      | ready => exact .of_setReceiver hp (by simp) (.quiet false)
      | timeout | failed => exact .of_setReceiver hp (by simp) (.message _ _)
    case h_2 => cases hs
  | received j result =>
    obtain rfl := Option.some.inj hl
    rw [shownBy, if_pos hl]
    cases hp : (s.receiver j).pc <;> simp only [Client.step, hp] at hs
    case receiving =>
      cases result with
      | data bytes =>
        obtain ⟨-, hs⟩ := Option.ite_none_right_eq_some.mp hs
        obtain rfl := Option.some.inj hs
        exact .of_setReceiver hp (by simp) (.quiet false)
      | closed =>
        obtain rfl := Option.some.inj hs
        exact .of_setReceiver hp (by simp) (.message _ _)
      | failed eno =>
        obtain rfl := Option.some.inj hs
        simp only [events]
        split <;> exact .of_setReceiver hp (by simp) (.message _ _)
    all_goals cases hs
  | available j available =>
    obtain rfl := Option.some.inj hl
    rw [shownBy, if_pos hl]
    simp only [Client.step] at hs
    split at hs
    case h_1 hp =>
      obtain ⟨th, hth, rfl⟩ := Option.map_eq_some_iff.mp hs
      refine .of_setReceiver hp (by simp) ?_
      rw [finish_pc hth]
      exact .quiet false
    case h_2 => cases hs

/-- What a thread has shown: data, and a message in the end, once it has left its loop. -/
def Reported (h : List Shown) (left : Bool) : Prop :=
  ∃ calls : List (List Byte × Nat), ∃ last : List (String × List Int),
    h = (calls.map fun c => .data c.1 c.2) ++ (last.map fun m => .message m.1 m.2) ∧
      last.length = left.toNat

theorem Reported.step {h es : List Shown} {b b' : Bool} (hr : Reported h b) (hs : Shows es b b') :
    Reported (h ++ es) b' := by
  obtain ⟨calls, last, rfl, hlast⟩ := hr
  cases hs with
  | quiet => exact ⟨calls, last, List.append_nil _, hlast⟩
  | data buffer num =>
    obtain rfl := List.length_eq_zero_iff.mp hlast
    exact ⟨calls ++ [(buffer, num)], [], by simp, rfl⟩
  | message format args =>
    obtain rfl := List.length_eq_zero_iff.mp hlast
    exact ⟨calls, [(format, args)], by simp, rfl⟩

def Fresh (s : State) : Prop := ∀ t, s.threads ≤ t → (s.receiver t).pc = .notStarted

theorem Spawns.fresh {s s' : State} (h : Spawns s s') (hf : Fresh s) : Fresh s' := by
  intro t ht
  rw [h.old t (Or.inr ht)]
  exact hf t (h.le.trans ht)

theorem Spawns.left_eq {s s' : State} (h : Spawns s s') (hf : Fresh s) (t : Nat) :
    (s'.receiver t).pc.left = (s.receiver t).pc.left := by
  rcases Nat.lt_or_ge t s.threads with hlt | hge
  · rw [h.old t (Or.inl hlt)]
  · rcases Nat.lt_or_ge t s'.threads with hlt' | hge'
    · rw [h.new t hge hlt', hf t hge]
      rfl
    · rw [h.old t (Or.inr hge')]

theorem Reported.run {h : List Shown} {s s' : State} {l : Label} {t : Nat}
    (hI : Fresh s ∧ Reported h (s.receiver t).pc.left) (hs : Client.step s l = some s') :
    Fresh s' ∧ Reported (h ++ shownBy t s l) (s'.receiver t).pc.left := by
  obtain ⟨hf, hr⟩ := hI
  cases hl : l.receiver with
  | none =>
    have hspawns := Spawns.step hl hs
    have hnone : shownBy t s l = [] := by simp [shownBy, hl]
    rw [hnone, List.append_nil, hspawns.left_eq hf]
    exact ⟨hspawns.fresh hf, hr⟩
  | some j =>
    obtain ⟨hruns, u, th, hspawns, rfl, hshows⟩ := Moves.step hl hs
    have hj : j < s.threads := by
      by_contra hge
      exact hruns (hf j (Nat.not_lt.mp hge))
    have hother (i : Nat) (hi : i ≠ j) : (u.setReceiver j th).receiver i = u.receiver i :=
      Function.update_of_ne hi _ _
    constructor
    · intro i hi
      rw [hother i (Nat.ne_of_gt (hj.trans_le (hspawns.le.trans hi)))]
      exact hspawns.fresh hf i hi
    · by_cases ht : t = j
      · subst ht
        have hself : (u.setReceiver t th).receiver t = th := Function.update_self _ _ _
        rw [hself]
        exact hr.step hshows
      · have hnone : shownBy t s l = [] := by simp [shownBy, hl, Ne.symm ht]
        rw [hnone, List.append_nil, hother t ht, hspawns.left_eq hf]
        exact hr

/-- `vsprintf`, for `%d`. -/
def vsprintf : List Char → List Int → List Char
  | '%' :: 'd' :: format, arg :: args => DecimalText.ofInt arg ++ vsprintf format args
  | c :: format, args => c :: vsprintf format args
  | [], _ => []

def printed (format : String) (args : List Int) : List Byte :=
  (vsprintf format.toList args).map fun c => BitVec.ofNat 8 c.toNat

/-- The buffer and the length passed to `DisplayMessage`; `none` once a write or `strlen` leaves
the buffer. -/
def debugMsg (format : String) (args : List Int) : Option (List Byte × Nat) :=
  let len := (printed format args).length
  if len + 1 ≤ 64 then do
    let tmp ← store (printed format args ++ List.replicate (64 - len) 0) len 13
    let tmp ← store tmp (len + 1) 10
    if 0 ∈ tmp then some (tmp, (ReceiveWindow.cstring tmp).length) else none
  else none

def isInt (n : Int) : Bool := decide (-2147483648 ≤ n ∧ n ≤ 2147483647)

/-- Error codes are of type `int`. -/
def Label.intCodes : Label → Bool
  | .selectWrite _ code => isInt code
  | .selected _ (.failed eno) | .received _ (.failed eno) => isInt eno
  | _ => true

/-- A text of this format fits with any arguments of type `int`: eleven characters for each. -/
structure Printable (format : String) (args : List Int) : Prop where
  room : format.toList.length + 11 * args.length ≤ 61
  ascii : ∀ c ∈ format.toList, 0 < c.toNat ∧ c.toNat < 128
  ints : ∀ n ∈ args, isInt n = true

theorem printable_events {s : State} {l : Label} (hl : l.intCodes = true) {format : String}
    {args : List Int} (he : .debugMsg format args ∈ events s l) : Printable format args := by
  have hone {n : Int} (h : isInt n = true) : ∀ m ∈ [n], isInt m = true := by
    intro m hm
    obtain rfl := List.mem_singleton.mp hm
    exact h
  have hnone : ∀ m ∈ ([] : List Int), isInt m = true := fun _ hm => absurd hm List.not_mem_nil
  have hstat (state : Bool) : Event.debugMsg format args ∉ [Event.stateChanged state] := by simp
  cases l with
  | selectWrite ready code =>
    cases ready with
    | true => cases he
    | false =>
      obtain ⟨rfl, rfl⟩ := Event.debugMsg.inj (List.mem_singleton.mp he)
      exact ⟨by simp, by simp, hone hl⟩
  | selected t result =>
    cases result with
    | ready => cases he
    | timeout =>
      obtain ⟨rfl, rfl⟩ := Event.debugMsg.inj (List.mem_singleton.mp he)
      exact ⟨by simp, by simp, hnone⟩
    | failed eno =>
      obtain ⟨rfl, rfl⟩ := Event.debugMsg.inj (List.mem_singleton.mp he)
      refine ⟨by simp, by simp, fun m hm => ?_⟩
      rcases List.mem_cons.mp hm with rfl | hm
      · decide
      · exact hone hl m hm
  | received t result =>
    cases result with
    | data => cases he
    | closed =>
      obtain ⟨rfl, rfl⟩ := Event.debugMsg.inj (List.mem_singleton.mp he)
      exact ⟨by simp, by simp, hnone⟩
    | failed eno =>
      simp only [events] at he
      split at he
      · obtain ⟨rfl, rfl⟩ := Event.debugMsg.inj (List.mem_singleton.mp he)
        exact ⟨by simp, by simp, hnone⟩
      · obtain ⟨rfl, rfl⟩ := Event.debugMsg.inj (List.mem_singleton.mp he)
        exact ⟨by simp, by simp, hone hl⟩
  | receive t =>
    simp only [events] at he
    split at he
    case h_1 =>
      split at he
      · cases he
      · obtain ⟨rfl, rfl⟩ := Event.debugMsg.inj (List.mem_singleton.mp he)
        exact ⟨by simp, by simp, hnone⟩
    case h_2 => simp at he
    case h_3 => exact absurd he (hstat _)
    case h_4 => cases he
  | gui =>
    simp only [events] at he
    split at he
    case h_3 => cases he
    all_goals exact absurd he (hstat _)
  | _ => cases he

theorem length_vsprintf_le (format : List Char) (args : List Int)
    (h : ∀ n ∈ args, isInt n = true) :
    (vsprintf format args).length ≤ format.length + 11 * args.length := by
  fun_induction vsprintf format args with
  | case1 format arg args ih =>
    have harg : (DecimalText.ofInt arg).length ≤ 11 := by
      have hint := of_decide_eq_true (h arg List.mem_cons_self)
      exact DecimalText.length_ofInt_le (k := 10) (by decide) (by omega)
    have hrest := ih fun n hn => h n (List.mem_cons_of_mem _ hn)
    simp only [List.length_append, List.length_cons]
    omega
  | case2 c format args hno ih =>
    have hrest := ih h
    simp only [List.length_cons]
    omega
  | case3 => exact Nat.zero_le _

/-- Only the format and digits are printed, and no NUL. -/
theorem ascii_vsprintf {format : List Char} (args : List Int)
    (h : ∀ c ∈ format, 0 < c.toNat ∧ c.toNat < 128) :
    ∀ c ∈ vsprintf format args, 0 < c.toNat ∧ c.toNat < 128 := by
  fun_induction vsprintf format args with
  | case1 format arg args ih =>
    intro c hc
    rcases List.mem_append.mp hc with hc | hc
    · rcases DecimalText.mem_ofInt hc with rfl | hd
      · decide
      · have hdigit := DecimalText.toNat_of_isDigit hd
        omega
    · exact ih (fun c hc => h c (by simp [hc])) c hc
  | case2 c format args hno ih =>
    intro d hd
    rcases List.mem_cons.mp hd with rfl | hd
    · exact h d List.mem_cons_self
    · exact ih (fun c hc => h c (List.mem_cons_of_mem _ hc)) d hd
  | case3 =>
    intro c hc
    cases hc

theorem Printable.length_le {format : String} {args : List Int} (h : Printable format args) :
    (printed format args).length ≤ 61 := by
  rw [printed, List.length_map]
  exact (length_vsprintf_le _ _ h.ints).trans h.room

theorem Printable.noZero {format : String} {args : List Int} (h : Printable format args) :
    0 ∉ printed format args := by
  intro hmem
  obtain ⟨c, hc, hzero⟩ := List.mem_map.mp hmem
  have hascii := ascii_vsprintf args h.ascii c hc
  have hnat := congrArg BitVec.toNat hzero
  simp only [BitVec.toNat_ofNat, BitVec.ofNat_eq_ofNat] at hnat
  omega

/-- The text and the line end are followed by a NUL inside the buffer. -/
theorem debugMsg_eq {format : String} {args : List Int} (h : Printable format args) :
    ∃ tmp, debugMsg format args = some (tmp, (printed format args).length + 2) ∧
      tmp.length = 64 ∧ ReceiveWindow.cstring tmp = printed format args ++ [13, 10] := by
  have hlen := h.length_le
  have hzero : 0 ∉ printed format args ++ [13, 10] := by simpa using h.noZero
  obtain ⟨k, hk⟩ : ∃ k, 64 - (printed format args).length = k + 3 :=
    ⟨61 - (printed format args).length, by omega⟩
  have hfill : List.replicate (64 - (printed format args).length) (0 : Byte) =
      0 :: 0 :: 0 :: List.replicate k 0 := by
    rw [hk]
    rfl
  let tmp := (printed format args ++ [13, 10]) ++ 0 :: List.replicate k 0
  have hcstring : ReceiveWindow.cstring tmp = printed format args ++ [13, 10] := by
    rw [ReceiveWindow.cstring, Terminated.takeWhile_append_cons]
    exact Terminated.takeWhile_eq_self_iff.mpr hzero
  have hfirst : store (printed format args ++ 0 :: 0 :: 0 :: List.replicate k 0)
      (printed format args).length 13 =
        some ((printed format args ++ [13]) ++ 0 :: 0 :: List.replicate k 0) := by
    rw [ReceiveBuffer.store_append]
    simp
  have hsecond : store ((printed format args ++ [13]) ++ 0 :: 0 :: List.replicate k 0)
      ((printed format args).length + 1) 10 = some tmp := by
    have hpos : (printed format args).length + 1 = (printed format args ++ [13]).length := by simp
    rw [hpos, ReceiveBuffer.store_append]
    simp [tmp]
  have hmem : 0 ∈ tmp := by simp [tmp]
  refine ⟨tmp, ?_, ?_, hcstring⟩
  · have hroom : (printed format args).length + 1 ≤ 64 := by omega
    simp only [debugMsg, hroom, if_true, hfill, hfirst, hsecond, Option.bind_eq_bind,
      Option.bind_some, hmem, hcstring, List.length_append, List.length_cons, List.length_nil]
  · simp only [tmp, List.length_append, List.length_cons, List.length_nil, List.length_replicate]
    omega

theorem mem_outputs {ε : Type} {ev : State → Label → List ε} {e : ε} {tr : List Label}
    {s s' : State} (hs : exec step s tr = some s') (he : e ∈ outputs step ev s tr) :
    ∃ u, ∃ l ∈ tr, e ∈ ev u l := by
  induction tr generalizing s with
  | nil => cases he
  | cons l tr ih =>
    obtain ⟨u, hu, ht⟩ := exec_cons.mp hs
    rw [outputs_cons hu] at he
    rcases List.mem_append.mp he with he | he
    · exact ⟨s, l, List.mem_cons_self, he⟩
    · obtain ⟨v, m, hm, he⟩ := ih ht he
      exact ⟨v, m, List.mem_cons_of_mem _ hm, he⟩

/-- In every run each receive thread passes on its data, and leaves its loop with one message; all
messages fit the buffer of `DebugMsg` and are displayed whole, with a line end. -/
theorem receivers_report_once {tr : List Label} {s : State} (hrun : exec step init tr = some s)
    (hcodes : ∀ l ∈ tr, l.intCodes = true) :
    (∀ t, Reported (outputs step (shownBy t) init tr) (s.receiver t).pc.left) ∧
      ∀ format args, .debugMsg format args ∈ outputs step events init tr →
        ∃ tmp, debugMsg format args = some (tmp, (printed format args).length + 2) ∧
          tmp.length = 64 ∧ ReceiveWindow.cstring tmp = printed format args ++ [13, 10] := by
  constructor
  · intro t
    have hinit : Fresh init ∧ Reported [] (init.receiver t).pc.left :=
      ⟨fun _ _ => rfl, [], [], rfl, rfl⟩
    have hstep (h : List Shown) (s : State) (l : Label) (s' : State)
        (hI : Fresh s ∧ Reported h (s.receiver t).pc.left) (hs : step s l = some s') :
        Fresh s' ∧ Reported (h ++ shownBy t s l) (s'.receiver t).pc.left :=
      Reported.run hI hs
    exact (exec_history (shownBy t) (I := fun h s => Fresh s ∧ Reported h (s.receiver t).pc.left)
      hstep hinit hrun).2
  · intro format args he
    obtain ⟨u, l, hl, he⟩ := mem_outputs hrun he
    exact debugMsg_eq (printable_events (hcodes l hl) he)

/-- One message has come, then nothing for the time that `select` waits. -/
def fallSilent : List Label :=
  press ++ startWinsock ++ dial 1 ++
    [.receive 0, .receive 0, .selected 0 .ready, .receive 0, .receive 0, .received 0 (.data [104]),
      .receive 0, .available 0 (some 0), .receive 0, .receive 0, .receive 0, .selected 0 .timeout]

theorem receivers_report_once_fallSilent :
    ∃ s, exec step init fallSilent = some s ∧ (s.receiver 0).pc.left = true ∧
      Reported (outputs step (shownBy 0) init fallSilent) true := by
  obtain ⟨s, hs, hleft⟩ := exec_exists step init fallSilent (fun s => (s.receiver 0).pc.left)
    (by decide +kernel)
  refine ⟨s, hs, hleft, ?_⟩
  have hreported := (receivers_report_once hs (by decide)).1 0
  rwa [hleft] at hreported

end Cexp.Client
