import Cexp.Transition
import Cexp.Terminated

/-! The window that shows what is received, in `gui_server.c` and `gui_client.c`:
`DisplayMessage` on the receiving thread and the clear button on the GUI thread, split at every
window message and every lock operation. The text is in the edit control, the place for the
next message in a counter beside it. The control belongs to the GUI thread, so a message that the
receiving thread sends it waits until that thread is back in its message loop. -/

namespace Cexp.ReceiveWindow

open Transition

abbrev Byte := BitVec 8

/-- An edit control with its selection, which is always empty here. -/
structure EditControl where
  text : List Byte
  sel : Nat

def EditControl.setText (e : EditControl) (text : List Byte) : EditControl :=
  { e with text := text, sel := 0 }

/-- `EM_SETSEL` with the same start and end. -/
def EditControl.setSel (e : EditControl) (i : Nat) : EditControl :=
  { e with sel := min i e.text.length }

/-- `EM_REPLACESEL`. -/
def EditControl.replaceSel (e : EditControl) (text : List Byte) : EditControl where
  text := e.text.take e.sel ++ text ++ e.text.drop e.sel
  sel := e.sel + text.length

theorem EditControl.replaceSel_end {e : EditControl} (h : e.sel = e.text.length)
    (text : List Byte) : (e.replaceSel text).text = e.text ++ text := by
  simp [replaceSel, h]

/-- What a `char*` stands for. -/
def cstring (msg : List Byte) : List Byte := msg.takeWhile (· ≠ 0)

/-- What guards the counter: the `lock` of the server, or the client's `g_mutex`, for which a
thread waits 20 seconds and then goes on without it. -/
inductive Guard where
  | criticalSection
  | mutex
  deriving DecidableEq, Repr

inductive Thread where
  | receiver
  | gui
  deriving DecidableEq, Repr

/-- `setSel place` and `replaceSel` are inside `SendMessage`, the first with the value that the
counter had when it was called. -/
inductive DisplayPc where
  | outside
  | enter
  | place
  | setSel (place : Nat)
  | replaceSel
  | count
  | leave
  deriving DecidableEq, Repr

inductive ClearPc where
  | outside
  | setText
  | setSel
  | enter
  | reset
  | leave
  deriving DecidableEq, Repr

/-- The counter is `g_recv_count` or `g_display_count`; `msg` and `len` are those of the
`DisplayMessage` call in progress. -/
structure State where
  window : EditControl
  count : Nat
  lock : Option Thread
  display : DisplayPc
  msg : List Byte
  len : Nat
  clear : ClearPc

def init : State where
  window := ⟨[], 0⟩
  count := 0
  lock := none
  display := .outside
  msg := []
  len := 0
  clear := .outside

inductive Label where
  | call (msg : List Byte) (len : Nat)
  | display
  | displayTimeout
  | click
  | clear
  | clearTimeout

def State.release (s : State) (t : Thread) : Option Thread :=
  if s.lock = some t then none else s.lock

def displayStep (s : State) : Option State :=
  match s.display with
  | .outside => none
  | .enter =>
    if s.lock = none then some { s with lock := some .receiver, display := .place } else none
  | .place => some { s with display := .setSel s.count }
  | .setSel place =>
    if s.clear = .outside then
      some { s with window := s.window.setSel place, display := .replaceSel }
    else none
  | .replaceSel =>
    if s.clear = .outside then
      some { s with window := s.window.replaceSel (cstring s.msg), display := .count }
    else none
  | .count => some { s with count := s.count + s.len, display := .leave }
  | .leave => some { s with lock := s.release .receiver, display := .outside }

def clearStep (s : State) : Option State :=
  match s.clear with
  | .outside => none
  | .setText => some { s with window := s.window.setText [], clear := .setSel }
  | .setSel => some { s with window := s.window.setSel 0, clear := .enter }
  | .enter => if s.lock = none then some { s with lock := some .gui, clear := .reset } else none
  | .reset => some { s with count := 0, clear := .leave }
  | .leave => some { s with lock := s.release .gui, clear := .outside }

def step (g : Guard) (s : State) : Label → Option State
  | .call msg len =>
    if s.display = .outside then some { s with display := .enter, msg := msg, len := len } else none
  | .display => displayStep s
  | .displayTimeout =>
    if g = .mutex ∧ s.display = .enter ∧ s.lock ≠ none then some { s with display := .place }
    else none
  | .click => if s.clear = .outside then some { s with clear := .setText } else none
  | .clear => clearStep s
  | .clearTimeout =>
    if g = .mutex ∧ s.clear = .enter ∧ s.lock ≠ none then some { s with clear := .reset }
    else none

inductive Event where
  | inserted (text : List Byte)
  | emptied

def events (s : State) : Label → List Event
  | .display => if s.display = .replaceSel then [.inserted (cstring s.msg)] else []
  | .clear => if s.clear = .setText then [.emptied] else []
  | _ => []

/-- The messages inserted since the text was last emptied. -/
def shown (h : List Event) : List (List Byte) :=
  h.foldl (fun ms e => match e with
    | .inserted text => ms ++ [text]
    | .emptied => []) []

def inserted (h : List Event) : List (List Byte) :=
  h.filterMap fun
    | .inserted text => some text
    | .emptied => none

/-- The message of a `DisplayMessage` call that has not inserted it yet. -/
def waiting (s : State) : List (List Byte) :=
  match s.display with
  | .enter | .place | .setSel _ | .replaceSel => [cstring s.msg]
  | _ => []

def Label.isCall : Label → Bool
  | .call _ _ => true
  | _ => false

/-- A message without NUL, passed with its length. -/
def Label.wellFormed : Label → Bool
  | .call msg len => !msg.contains 0 && len == msg.length
  | _ => true

/-- A clear has emptied the text and not yet reset the counter. -/
def ClearPc.pending : ClearPc → Bool
  | .setSel | .enter | .reset => true
  | _ => false

/-- A clear resets the counter only when what was inserted before has been counted. -/
def resetsCounted (s : State) : Label → Bool
  | .clear => s.clear != .reset || s.display != .count || s.len == 0
  | _ => true

theorem shown_append (h : List Event) (e : Event) : shown (h ++ [e]) = match e with
    | .inserted text => shown h ++ [text]
    | .emptied => [] := by
  rw [shown, List.foldl_append]
  rfl

theorem inserted_append (h h' : List Event) : inserted (h ++ h') = inserted h ++ inserted h' :=
  List.filterMap_append

/-- A step other than a call moves its message from the call into the text. -/
theorem waiting_step {g : Guard} {s t : State} {l : Label} (hl : l.isCall = false)
    (hs : step g s l = some t) : inserted (events s l) ++ waiting t = waiting s := by
  cases l with
  | call => cases hl
  | display =>
    simp only [step] at hs
    cases hd : s.display <;> simp only [displayStep, hd] at hs
    case outside => cases hs
    case enter | setSel | replaceSel =>
      split at hs <;> cases hs
      simp [events, inserted, waiting, hd]
    all_goals
      obtain rfl := Option.some.inj hs
      simp [events, inserted, waiting, hd]
  | click =>
    simp only [step] at hs
    split at hs <;> cases hs
    rfl
  | clear =>
    simp only [step] at hs
    cases hc : s.clear <;> simp only [clearStep, hc] at hs
    case outside => cases hs
    case enter =>
      split at hs <;> cases hs
      simp [events, inserted, waiting, hc]
    all_goals
      obtain rfl := Option.some.inj hs
      simp [events, inserted, waiting, hc]
  | displayTimeout =>
    obtain ⟨⟨-, hd, -⟩, hs⟩ := Option.ite_none_right_eq_some.mp hs
    obtain rfl := Option.some.inj hs
    simp [events, inserted, waiting, hd]
  | clearTimeout =>
    obtain ⟨-, hs⟩ := Option.ite_none_right_eq_some.mp hs
    obtain rfl := Option.some.inj hs
    rfl

theorem cstring_of_noZero {msg : List Byte} (h : 0 ∉ msg) : cstring msg = msg :=
  Terminated.takeWhile_eq_self_iff.mpr h

/-- A message is shown up to its first NUL, and its length is at least that. -/
def Label.counts : Label → Prop
  | .call msg len => (cstring msg).length ≤ len
  | _ => True

theorem Label.counts_of_isCall {l : Label} (h : l.isCall = false) : l.counts := by
  cases l with
  | call => cases h
  | _ => trivial

/-- The text is what has been shown, since no message is placed in front of its end: the counter
is never behind the text, and an emptied text stays empty until the clear returns. -/
structure Placed (h : List Event) (s : State) : Prop where
  text : s.window.text = (shown h).flatten
  len : s.display ≠ .outside → (cstring s.msg).length ≤ s.len
  covered : s.window.text.length ≤ s.count + if s.display = .count then s.len else 0
  emptied : s.clear.pending = true → s.window.text = []
  place : ∀ place, s.display = .setSel place → s.window.text.length ≤ place
  sel : s.display = .replaceSel → s.window.sel = s.window.text.length

theorem placed_init : Placed [] init where
  text := rfl
  len h := absurd rfl h
  covered := Nat.zero_le _
  emptied h := by cases h
  place _ h := by cases h
  sel h := by cases h

theorem Placed.call {g : Guard} {h : List Event} {s t : State} {msg : List Byte} {len : Nat}
    (hI : Placed h s) (hlen : (cstring msg).length ≤ len)
    (hs : step g s (.call msg len) = some t) : Placed h t := by
  obtain ⟨hd, hs⟩ := Option.ite_none_right_eq_some.mp hs
  obtain rfl := Option.some.inj hs
  have hcov := hI.covered
  rw [hd] at hcov
  exact ⟨hI.text, fun _ => hlen, hcov, hI.emptied, by simp, by simp⟩

theorem Placed.display {h : List Event} {s t : State} (hI : Placed h s)
    (hs : displayStep s = some t) : Placed (h ++ events s .display) t := by
  obtain ⟨htext, hlen, hcov, hemp, hplace, hsel⟩ := hI
  cases hd : s.display <;> simp only [displayStep, hd] at hs
  case outside => cases hs
  case enter =>
    obtain ⟨-, hs⟩ := Option.ite_none_right_eq_some.mp hs
    obtain rfl := Option.some.inj hs
    exact ⟨by simpa [events, hd] using htext, fun _ => hlen (by simp [hd]),
      by simpa [hd] using hcov, hemp, by simp, by simp⟩
  case place =>
    obtain rfl := Option.some.inj hs
    have hle : s.window.text.length ≤ s.count := by simpa [hd] using hcov
    refine ⟨by simpa [events, hd] using htext, fun _ => hlen (by simp [hd]), hle, hemp,
      fun place he => ?_, by simp⟩
    obtain rfl := DisplayPc.setSel.inj he
    exact hle
  case setSel place =>
    obtain ⟨-, hs⟩ := Option.ite_none_right_eq_some.mp hs
    obtain rfl := Option.some.inj hs
    exact ⟨by simpa [events, hd, EditControl.setSel] using htext, fun _ => hlen (by simp [hd]),
      by simpa [hd, EditControl.setSel] using hcov, hemp, by simp,
      fun _ => min_eq_right (hplace place hd)⟩
  case replaceSel =>
    obtain ⟨hc, hs⟩ := Option.ite_none_right_eq_some.mp hs
    obtain rfl := Option.some.inj hs
    have hins := EditControl.replaceSel_end (hsel hd) (cstring s.msg)
    have hmsg := hlen (by simp [hd])
    have hle : s.window.text.length ≤ s.count := by simpa [hd] using hcov
    refine ⟨?_, fun _ => hmsg, ?_, fun hp => by simp [hc, ClearPc.pending] at hp, by simp, by simp⟩
    · simp [events, hd, hins, shown_append, htext]
    · rw [hins, List.length_append]
      exact Nat.add_le_add hle hmsg
  case count =>
    obtain rfl := Option.some.inj hs
    exact ⟨by simpa [events, hd] using htext, fun _ => hlen (by simp [hd]),
      by simpa [hd] using hcov, hemp, by simp, by simp⟩
  case leave =>
    obtain rfl := Option.some.inj hs
    exact ⟨by simpa [events, hd] using htext, fun hp => absurd rfl hp, by simpa [hd] using hcov,
      hemp, by simp, by simp⟩

theorem Placed.clear {h : List Event} {s t : State} (hI : Placed h s)
    (hs : clearStep s = some t) : Placed (h ++ events s .clear) t := by
  obtain ⟨htext, hlen, hcov, hemp, hplace, hsel⟩ := hI
  cases hc : s.clear <;> simp only [clearStep, hc] at hs
  case outside => cases hs
  case setText =>
    obtain rfl := Option.some.inj hs
    exact ⟨by simp [events, hc, shown_append, EditControl.setText], hlen, Nat.zero_le _,
      fun _ => rfl, fun _ _ => Nat.zero_le _, fun _ => rfl⟩
  case setSel =>
    obtain rfl := Option.some.inj hs
    have hempty : s.window.text = [] := hemp (by rw [hc]; rfl)
    exact ⟨by simpa [events, hc, EditControl.setSel] using htext, hlen,
      by simpa [EditControl.setSel] using hcov, fun _ => hempty,
      by simpa [EditControl.setSel] using hplace, fun _ => by simp [EditControl.setSel, hempty]⟩
  case enter =>
    obtain ⟨-, hs⟩ := Option.ite_none_right_eq_some.mp hs
    obtain rfl := Option.some.inj hs
    exact ⟨by simpa [events, hc] using htext, hlen, hcov, fun _ => hemp (by rw [hc]; rfl), hplace,
      hsel⟩
  case reset =>
    obtain rfl := Option.some.inj hs
    have hempty : s.window.text = [] := hemp (by rw [hc]; rfl)
    exact ⟨by simpa [events, hc] using htext, hlen, by simp [hempty], fun hp => (by cases hp),
      hplace, hsel⟩
  case leave =>
    obtain rfl := Option.some.inj hs
    exact ⟨by simpa [events, hc] using htext, hlen, hcov, fun hp => (by cases hp), hplace, hsel⟩

theorem Placed.step {g : Guard} {h : List Event} {s t : State} {l : Label} (hI : Placed h s)
    (hl : l.counts) (hs : step g s l = some t) : Placed (h ++ events s l) t := by
  have hsame {m : Label} (he : events s m = []) : h ++ events s m = h := by
    rw [he, List.append_nil]
  cases l with
  | display => exact hI.display hs
  | clear => exact hI.clear hs
  | call msg len =>
    rw [hsame rfl]
    exact hI.call hl hs
  | click =>
    obtain ⟨-, hs⟩ := Option.ite_none_right_eq_some.mp hs
    obtain rfl := Option.some.inj hs
    rw [hsame rfl]
    exact ⟨hI.text, hI.len, hI.covered, fun hp => (by cases hp), hI.place, hI.sel⟩
  | displayTimeout =>
    obtain ⟨⟨-, hd, -⟩, hs⟩ := Option.ite_none_right_eq_some.mp hs
    obtain rfl := Option.some.inj hs
    rw [hsame rfl]
    have hcov := hI.covered
    rw [hd] at hcov
    exact ⟨hI.text, fun _ => hI.len (by simp [hd]), hcov, hI.emptied, by simp, by simp⟩
  | clearTimeout =>
    obtain ⟨⟨-, hc, -⟩, hs⟩ := Option.ite_none_right_eq_some.mp hs
    obtain rfl := Option.some.inj hs
    rw [hsame rfl]
    exact ⟨hI.text, hI.len, hI.covered, fun _ => hI.emptied (by rw [hc]; rfl), hI.place, hI.sel⟩

def DisplayPc.holds : DisplayPc → Bool
  | .place | .setSel _ | .replaceSel | .count | .leave => true
  | _ => false

def ClearPc.holds : ClearPc → Bool
  | .reset | .leave => true
  | _ => false

/-- The counter is the length of the text, but for the steps still to be taken: a message inserted
is counted, and a clear that has emptied the text resets the counter. -/
structure Counted (g : Guard) (s : State) : Prop where
  msg : s.display ≠ .outside → s.len = (cstring s.msg).length
  settled : s.clear.pending = false →
    s.count + (if s.display = .count then s.len else 0) = s.window.text.length
  receiver : g = .criticalSection → s.display.holds = true → s.lock = some .receiver
  gui : g = .criticalSection → s.clear.holds = true → s.lock = some .gui

theorem counted_init (g : Guard) : Counted g init where
  msg h := absurd rfl h
  settled _ := rfl
  receiver _ h := by cases h
  gui _ h := by cases h

theorem Counted.display {g : Guard} {h : List Event} {s t : State} (hI : Counted g s)
    (hP : Placed h s) (hs : displayStep s = some t) : Counted g t := by
  obtain ⟨hmsg, hset, hrec, hgui⟩ := hI
  cases hd : s.display <;> simp only [displayStep, hd] at hs
  case outside => cases hs
  case enter =>
    obtain ⟨hl, hs⟩ := Option.ite_none_right_eq_some.mp hs
    obtain rfl := Option.some.inj hs
    refine ⟨fun _ => hmsg (by simp [hd]), fun hp => by simpa [hd] using hset hp, fun _ _ => rfl,
      fun hg hh => ?_⟩
    have hlock := hgui hg hh
    rw [hl] at hlock
    cases hlock
  case place =>
    obtain rfl := Option.some.inj hs
    exact ⟨fun _ => hmsg (by simp [hd]), fun hp => by simpa [hd] using hset hp,
      fun hg _ => hrec hg (by rw [hd]; rfl), hgui⟩
  case setSel =>
    obtain ⟨-, hs⟩ := Option.ite_none_right_eq_some.mp hs
    obtain rfl := Option.some.inj hs
    exact ⟨fun _ => hmsg (by simp [hd]),
      fun hp => by simpa [hd, EditControl.setSel] using hset hp,
      fun hg _ => hrec hg (by rw [hd]; rfl), hgui⟩
  case replaceSel =>
    obtain ⟨hc, hs⟩ := Option.ite_none_right_eq_some.mp hs
    obtain rfl := Option.some.inj hs
    have hlen := hmsg (by simp [hd])
    have hcount : s.count = s.window.text.length := by simpa [hd] using hset (by rw [hc]; rfl)
    have hins := EditControl.replaceSel_end (hP.sel hd) (cstring s.msg)
    refine ⟨fun _ => hlen, fun _ => ?_, fun hg _ => hrec hg (by rw [hd]; rfl), hgui⟩
    rw [hins, List.length_append, if_pos rfl, hcount, hlen]
  case count =>
    obtain rfl := Option.some.inj hs
    exact ⟨fun _ => hmsg (by simp [hd]), fun hp => by simpa [hd] using hset hp,
      fun hg _ => hrec hg (by rw [hd]; rfl), hgui⟩
  case leave =>
    obtain rfl := Option.some.inj hs
    refine ⟨fun hp => absurd rfl hp, fun hp => by simpa [hd] using hset hp,
      fun _ hh => (by cases hh), fun hg hh => ?_⟩
    have hlock := (hrec hg (by rw [hd]; rfl)).symm.trans (hgui hg hh)
    cases hlock

theorem Counted.clear {g : Guard} {h : List Event} {s t : State} (hI : Counted g s)
    (hP : Placed h s) (hok : g = .mutex → resetsCounted s .clear = true)
    (hs : clearStep s = some t) : Counted g t := by
  obtain ⟨hmsg, hset, hrec, hgui⟩ := hI
  cases hc : s.clear <;> simp only [clearStep, hc] at hs
  case outside => cases hs
  case setText =>
    obtain rfl := Option.some.inj hs
    exact ⟨hmsg, fun hp => (by cases hp), hrec, fun _ hh => (by cases hh)⟩
  case setSel =>
    obtain rfl := Option.some.inj hs
    exact ⟨hmsg, fun hp => (by cases hp), hrec, fun _ hh => (by cases hh)⟩
  case enter =>
    obtain ⟨hl, hs⟩ := Option.ite_none_right_eq_some.mp hs
    obtain rfl := Option.some.inj hs
    refine ⟨hmsg, fun hp => (by cases hp), fun hg hh => ?_, fun _ _ => rfl⟩
    have hlock := hrec hg hh
    rw [hl] at hlock
    cases hlock
  case reset =>
    obtain rfl := Option.some.inj hs
    have hempty : s.window.text = [] := hP.emptied (by rw [hc]; rfl)
    refine ⟨hmsg, fun _ => ?_, hrec, fun hg _ => hgui hg (by rw [hc]; rfl)⟩
    by_cases hd : s.display = .count
    · cases g with
      | mutex =>
        have hlen : s.len = 0 := by simpa [resetsCounted, hc, hd] using hok rfl
        simp [hd, hlen, hempty]
      | criticalSection =>
        -- The two threads would both be inside the critical section.
        have hlock := (hrec rfl (by rw [hd]; rfl)).symm.trans (hgui rfl (by rw [hc]; rfl))
        cases hlock
    · simp [hd, hempty]
  case leave =>
    obtain rfl := Option.some.inj hs
    refine ⟨hmsg, fun _ => hset (by rw [hc]; rfl), fun hg hh => ?_, fun _ hh => (by cases hh)⟩
    have hlock := (hrec hg hh).symm.trans (hgui hg (by rw [hc]; rfl))
    cases hlock

theorem Counted.step {g : Guard} {h : List Event} {s t : State} {l : Label} (hI : Counted g s)
    (hP : Placed h s) (hw : l.wellFormed = true) (hok : g = .mutex → resetsCounted s l = true)
    (hs : step g s l = some t) : Counted g t := by
  cases l with
  | display => exact hI.display hP hs
  | clear => exact hI.clear hP hok hs
  | call msg len =>
    obtain ⟨hd, hs⟩ := Option.ite_none_right_eq_some.mp hs
    obtain rfl := Option.some.inj hs
    obtain ⟨hzero, hlen⟩ : 0 ∉ msg ∧ len = msg.length := by simpa [Label.wellFormed] using hw
    refine ⟨fun _ => ?_, fun hp => by simpa [hd] using hI.settled hp, fun _ hh => (by cases hh),
      hI.gui⟩
    rw [cstring_of_noZero hzero, hlen]
  | click =>
    obtain ⟨hc, hs⟩ := Option.ite_none_right_eq_some.mp hs
    obtain rfl := Option.some.inj hs
    exact ⟨hI.msg, fun _ => hI.settled (by rw [hc]; rfl), hI.receiver, fun _ hh => (by cases hh)⟩
  | displayTimeout =>
    obtain ⟨⟨hg, hd, -⟩, ht⟩ := Option.ite_none_right_eq_some.mp hs
    obtain rfl := Option.some.inj ht
    subst hg
    exact ⟨fun _ => hI.msg (by simp [hd]), fun hp => by simpa [hd] using hI.settled hp,
      fun hg => (by cases hg), fun hg => (by cases hg)⟩
  | clearTimeout =>
    obtain ⟨⟨hg, -, -⟩, ht⟩ := Option.ite_none_right_eq_some.mp hs
    obtain rfl := Option.some.inj ht
    subst hg
    exact ⟨hI.msg, fun hp => (by cases hp), fun hg => (by cases hg), fun hg => (by cases hg)⟩

theorem Label.counts_of_wellFormed {l : Label} (h : l.wellFormed = true) : l.counts := by
  cases l with
  | call msg len =>
    obtain ⟨hzero, hlen⟩ : 0 ∉ msg ∧ len = msg.length := by simpa [Label.wellFormed] using h
    rw [Label.counts, cstring_of_noZero hzero, hlen]
  | _ => trivial

/-- Whenever no call is in progress, the window shows the messages inserted since it was last
emptied, in their order, and the counter is their length: always in the server, and in the client
as long as no clear resets the counter before a message inserted has been counted. -/
theorem window_shows_messages {g : Guard} {tr : List Label} {s : State}
    (hw : ∀ l ∈ tr, l.wellFormed = true)
    (hm : g = .mutex → Meets (step g) (fun s l => resetsCounted s l = true) init tr)
    (h : exec (step g) init tr = some s) (hd : s.display = .outside) (hc : s.clear = .outside) :
    s.window.text = (shown (outputs (step g) events init tr)).flatten ∧
      s.count = s.window.text.length := by
  have hok : Meets (step g) (fun s l => g = .mutex → resetsCounted s l = true) init tr := by
    cases g with
    | criticalSection => exact meets_of_forall (by simp) init tr
    | mutex => simpa using hm rfl
  obtain ⟨hP, hC⟩ := exec_history_of_meets (h := []) events
    (I := fun h s => Placed h s ∧ Counted g s)
    (fun _ _ _ _ hI hl hs => ⟨hI.1.step (Label.counts_of_wellFormed hl.1) hs,
      hI.2.step hI.1 hl.1 hl.2 hs⟩)
    ⟨placed_init, counted_init g⟩ ((meets_of_mem hw init).and hok) h
  exact ⟨hP.text, by simpa [hd] using hC.settled (by rw [hc]; rfl)⟩

/-- A message is shown, the window is cleared, and another message is shown. -/
def showClearShow : List Label :=
  .call [72, 105] 2 :: List.replicate 6 .display ++ .click :: List.replicate 5 .clear ++
    .call [79, 75] 2 :: List.replicate 6 .display

theorem window_shows_messages_showClearShow :
    ∃ s, exec (step .mutex) init showClearShow = some s ∧
      s.window.text = (shown (outputs (step .mutex) events init showClearShow)).flatten ∧
      s.count = s.window.text.length := by
  obtain ⟨s, hs, hp⟩ := exec_exists (step .mutex) init showClearShow
    (fun s => s.display = .outside && s.clear = .outside) (by decide)
  simp only [Bool.and_eq_true, decide_eq_true_eq] at hp
  exact ⟨s, hs, window_shows_messages (by decide) (fun _ => by decide) hs hp.1 hp.2⟩

/-- The client's receiving thread has inserted a message and not yet counted it when the window is
cleared, and does so only after the clear has waited in vain: the counter is 2 beside an empty
text. -/
theorem message_not_counted : ¬ ∀ (tr : List Label) (s : State),
    (∀ l ∈ tr, l.wellFormed = true) → exec (step .mutex) init tr = some s →
      s.display = .outside → s.clear = .outside →
        s.window.text = (shown (outputs (step .mutex) events init tr)).flatten ∧
          s.count = s.window.text.length := by
  intro h
  obtain ⟨s, hs, hp⟩ := exec_exists (step .mutex) init
    (.call [72, 105] 2 :: List.replicate 4 .display ++ .click :: List.replicate 2 .clear ++
      .clearTimeout :: List.replicate 2 .clear ++ List.replicate 2 .display)
    (fun s => (s.display = .outside && s.clear = .outside) &&
      (s.count == 2 && s.window.text == [])) (by decide)
  simp only [Bool.and_eq_true, decide_eq_true_eq, beq_iff_eq] at hp
  have hh := (h _ s (by decide) hs hp.1.1 hp.1.2).2
  simp [hp.2.1, hp.2.2] at hh

end Cexp.ReceiveWindow
