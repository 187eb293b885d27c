import Mathlib.Data.List.Forall2
import InstrumentBus.Proofs.Wire.Trace
import InstrumentBus.Wire.Window

/-!
A window of the stream is all that a splitter needs: whatever is asked of it, no offset leaves the
window, and the same events are told as by a splitter whose offsets count from the start of the
stream.
-/

namespace InstrumentBus.Wire

open Text (Bytes)

def Event.rebase (k : Nat) : Event → Event
  | .frame start stop bs => .frame (start - k) (stop - k) bs
  | .fault e => .fault e

namespace Splitter

variable (s : Splitter) (k : Nat)

/-- A splitter whose offsets count from `k`, and which has no bytes itself. -/
def rebase (s : Splitter) (k : Nat) : Splitter := { s with
  position := s.position - k
  tagStart := s.tagStart - k
  frameStart := s.frameStart.map (· - k)
  held := []
  unread := [] }

def window (s : Splitter) (log : Bytes) (k : Nat) : Window :=
  ⟨(log ++ s.unread).drop k, s.rebase k⟩

def mapRebase (k : Nat) (r : Splitter × Option Event) : Splitter × Option Event :=
  (r.1.rebase k, r.2.map (·.recast (· - k) fun _ => []))

theorem mapRebase_ite (c : Prop) [Decidable c] (r t : Splitter × Option Event) :
    mapRebase k (if c then r else t) = if c then mapRebase k r else mapRebase k t :=
  apply_ite ..

theorem lexByte_rebase (here : Nat) (b : UInt8) :
    (s.rebase k).lexByte (here - k) b = mapRebase k (s.lexByte here b) :=
  s.lexByte_recast [] (· - k) (fun _ => []) here b

variable {s k} {t : Splitter} {log : Bytes} {b : UInt8}

theorem keepFrom_rebase : (s.rebase k).keepFrom = s.keepFrom - k := by
  cases hf : s.frameStart with
  | some st => simp only [keepFrom, rebase, hf, Option.map_some]
  | none =>
    simp only [keepFrom, rebase, hf, Option.map_none]
    split
    · rfl
    · omega

theorem rebase_trim (before : Nat) : (s.trim before).rebase k = s.rebase k := by
  simp only [trim]
  split <;> rfl

theorem rebase_advance (h : k ≤ s.position) :
    (s.advance b).rebase k = { s.rebase k with position := (s.rebase k).position + 1 } := by
  simp only [rebase, advance, Nat.sub_add_comm h]

theorem mapRebase_lexStep :
    mapRebase k (s.lexStep b) = mapRebase k ((s.advance b).lexByte s.position b) := by
  simp only [lexStep, mapRebase]
  split <;> rfl

theorem Holds.frameStart_of_moves (h : s.Holds log) (hs : s.IsPlaced) (hmoves : Moves s t s.position)
    {st : Nat} (hst : st ∈ t.frameStart) : s.keepFrom ≤ st ∧ st < s.position := by
  obtain hst | ⟨rfl, hlex⟩ := hmoves.frame st hst
  · refine ⟨?_, hs.start st hst⟩
    rw [keepFrom, Option.mem_def.1 hst]
  · exact ⟨h.keepFrom_le_tagStart hlex, hs.tag hlex⟩

theorem distance?_rebase {start stop : Nat} (hk : k ≤ start) (h : start ≤ stop) :
    Window.distance? (start - k) (stop - k) = some (stop - start) := by
  have hstop : stop - k - (start - k) = stop - start := by omega
  rw [Window.distance?, if_pos (Nat.sub_le_sub_right h k), hstop]

theorem checkSize?_rebase (h : ∀ st ∈ s.frameStart, k ≤ st ∧ st ≤ s.position) :
    Window.checkSize? (s.rebase k) = some (mapRebase k s.checkSize) := by
  cases hf : s.frameStart with
  | none => simp only [Window.checkSize?, checkSize, rebase, hf, mapRebase, Option.map_none]
  | some st =>
    obtain ⟨hk, hst⟩ := h st hf
    have hstart : (s.rebase k).frameStart = some (st - k) := by simp only [rebase, hf, Option.map_some]
    have hdistance : Window.distance? (st - k) (s.rebase k).position = some (s.position - st) :=
      distance?_rebase hk hst
    have hlimit : (s.rebase k).limit = s.limit := rfl
    simp only [Window.checkSize?, checkSize, hstart, hdistance, hlimit, hf, Option.map_some,
      mapRebase_ite]
    rfl

theorem le_lexStep_position : s.position ≤ (s.lexStep b).1.position := by
  rw [lexStep_position]
  obtain hnext | ⟨hback, -⟩ := (s.advance b).lexByte_position s.position b
  · exact hnext ▸ Nat.le_succ s.position
  · exact Nat.le_of_eq hback.symm

theorem step?_rebase (h : s.Holds log) (hs : s.IsPlaced) (hk : k ≤ s.keepFrom) :
    Window.step? (s.rebase k) b = some (mapRebase k (s.step b)) := by
  have hmoves := s.moves_lexStep b
  have hlex : ({ s.rebase k with position := (s.rebase k).position + 1 } : Splitter).lexByte
      (s.rebase k).position b = mapRebase k (s.lexStep b) := by
    rw [mapRebase_lexStep, ← lexByte_rebase, rebase_advance (Nat.le_trans hk (keepFrom_le hs))]
    rfl
  have hplaced : s.position ≤ (s.lexStep b).1.position := le_lexStep_position
  rw [Window.step?, hlex, step_eq]
  cases hl : s.lexStep b with
  | mk next event =>
    rw [hl] at hmoves hplaced
    cases event with
    | some event => simp only [mapRebase, Option.map_some, rebase_trim]
    | none =>
      have hframe : ∀ st ∈ next.frameStart, k ≤ st ∧ st ≤ next.position := by
        intro st hst
        obtain ⟨hkeep, hlt⟩ := h.frameStart_of_moves hs hmoves hst
        exact ⟨Nat.le_trans hk hkeep, Nat.le_trans (Nat.le_of_lt hlt) hplaced⟩
      simp only [mapRebase, Option.map_none, checkSize?_rebase hframe, rebase_trim]

theorem Completes.step_position {start stop : Nat} {bytes : Bytes}
    (h : Completes s b start stop bytes) : (s.step b).1.position = s.position + 1 := by
  obtain hnext | ⟨-, -, -, name, hname⟩ := s.step_position b
  · exact hnext
  · have hexit := h.next
    have hlex : s.place.lex = .startName name := hname
    simp only [Place.proceed?, hlex, Place.stay, Place.exit] at hexit
    split at hexit
    · simp at hexit
    · split at hexit <;> simp at hexit

theorem mem_readByte_of_mem_step {event : Event} (h : event ∈ (s.step b).2) :
    event ∈ (s.readByte b).2 := by
  simp only [readByte]
  cases hs : s.step b with
  | mk t found =>
    rw [hs] at h
    obtain rfl := Option.mem_def.1 h
    dsimp only
    split <;> simp

/-- What a search for an event comes to: `more` was read, and a frame that is told ends there. -/
structure Scans (s : Splitter) (log bs : Bytes) (r : Splitter × Option Event) (more : Bytes) :
    Prop where
  unread : more ++ r.1.unread = bs
  holds : r.1.Holds (log ++ more)
  sound : r.1.IsSound
  keepFrom_le : s.keepFrom ≤ r.1.keepFrom
  frame : ∀ start stop bytes, r.2 = some (.frame start stop bytes) →
    s.keepFrom ≤ start ∧ start ≤ stop ∧ stop = (log ++ more).length ∧
      bytes = (log ++ more).drop start

variable {bs more : Bytes} {r : Splitter × Option Event}

theorem Scans.cons (h : Scans t (log ++ [b]) bs r more) (hkeep : s.keepFrom ≤ t.keepFrom) :
    Scans s log (b :: bs) r (b :: more) := by
  have hlog : log ++ b :: more = log ++ [b] ++ more := List.append_cons ..
  refine ⟨?_, hlog ▸ h.holds, h.sound, Nat.le_trans hkeep h.keepFrom_le, ?_⟩
  · rw [List.cons_append, h.unread]
  · intro start stop bytes hevent
    obtain ⟨hstart, hrest⟩ := h.frame start stop bytes hevent
    exact ⟨Nat.le_trans hkeep hstart, hlog ▸ hrest⟩

theorem scans_of_event {event : Event} (h : s.Holds log) (hs : s.IsSound)
    (hstep : s.step b = (t, some event)) :
    ∃ more, Scans s log (b :: bs)
      (t.withUnread (if t.position = s.position then b :: bs else bs), some event) more := by
  have hread := h.step hs.placed b
  have hsound := hs.step b
  have hkeep : s.keepFrom ≤ (s.step b).1.keepFrom := h.keepFrom_le_step hs.placed b
  have hframe : ∀ start stop bytes, some event = some (.frame start stop bytes) →
      Completes s b start stop bytes := by
    intro start stop bytes hevent
    refine completes_of_mem_readByte hs (mem_readByte_of_mem_step ?_)
    rw [hstep]
    exact hevent
  rw [hstep] at hread hsound hkeep
  obtain ⟨hnext, ht⟩ | ⟨hback, ht⟩ := hread
  · have hadvanced : t.position ≠ s.position := hnext ▸ Nat.succ_ne_self s.position
    rw [if_neg hadvanced]
    refine ⟨[b], rfl, ht.withUnread bs, hsound.withUnread bs, hkeep, ?_⟩
    intro start stop bytes hevent
    have hdone := hframe start stop bytes hevent
    have hstart : s.keepFrom = start := by simp only [keepFrom, hdone.frameStart]
    obtain ⟨hlt, hend⟩ := hdone.eq_drop h hs.placed
    exact ⟨Nat.le_of_eq hstart, Nat.le_of_lt hlt, hend⟩
  · rw [if_pos hback]
    refine ⟨[], rfl, ?_, hsound.withUnread _, hkeep, ?_⟩
    · rw [List.append_nil]
      exact ht.withUnread _
    · intro start stop bytes hevent
      have hposition := (hframe start stop bytes hevent).step_position
      rw [hstep] at hposition
      omega

theorem exists_scans (h : s.Holds log) (hs : s.IsSound) (bs : Bytes) :
    ∃ more, Scans s log bs (s.scanBytes bs) more := by
  induction bs generalizing s log with
  | nil =>
    refine ⟨[], rfl, ?_, hs.withUnread [], Nat.le_refl _, by simp [scanBytes]⟩
    rw [List.append_nil]
    exact h.withUnread []
  | cons b bs ih =>
    simp only [scanBytes]
    cases hr : s.step b with
    | mk t event =>
      cases event with
      | some event => exact scans_of_event h hs hr
      | none =>
        have hread := h.step hs.placed b
        have hsound := hs.step b
        have hkeep : s.keepFrom ≤ (s.step b).1.keepFrom := h.keepFrom_le_step hs.placed b
        have hposition : (s.step b).1.position = s.position + 1 := by
          obtain hnext | ⟨-, -, hsome, -⟩ := s.step_position b
          · exact hnext
          · rw [hr] at hsome
            cases hsome
        rw [hr] at hread hsound hkeep hposition
        obtain ⟨-, ht⟩ | ⟨hback, -⟩ := hread
        · obtain ⟨more, hmore⟩ := ih ht hsound
          exact ⟨b :: more, hmore.cons hkeep⟩
        · omega

theorem scanBytes?_rebase (h : s.Holds log) (hs : s.IsSound) (hk : k ≤ s.keepFrom) (bs : Bytes) :
    Window.scanBytes? (s.rebase k) bs = some (mapRebase k (s.scanBytes bs)) := by
  induction bs generalizing s log with
  | nil => rfl
  | cons b bs ih =>
    have hread := h.step hs.placed b
    have hsound := hs.step b
    have hkeep : k ≤ (s.step b).1.keepFrom := Nat.le_trans hk (h.keepFrom_le_step hs.placed b)
    simp only [Window.scanBytes?, step?_rebase h hs.placed hk, scanBytes, Option.bind_some]
    cases hr : s.step b with
    | mk t event =>
      rw [hr] at hread hsound hkeep
      cases event with
      | some event => rfl
      | none =>
        obtain ⟨-, ht⟩ | ⟨-, ht⟩ := hread
        · exact ih ht hsound hkeep
        · exact ih ht hsound hkeep

theorem Holds.position_le (h : s.Holds log) : s.position ≤ (log ++ s.unread).length := by
  rw [h.position, List.length_append]
  exact Nat.le_add_right ..

theorem slice?_drop {stream : Bytes} {start stop : Nat} (hk : k ≤ start) (h : start ≤ stop)
    (hstop : stop ≤ stream.length) :
    Window.slice? ⟨stream.drop k, t⟩ (start - k) (stop - k) = some ((stream.take stop).drop start) := by
  have hinside : start - k ≤ stop - k ∧ stop - k ≤ (stream.drop k).length := by
    rw [List.length_drop]
    omega
  rw [Window.slice?, if_pos hinside, ← List.drop_take, List.drop_drop, Nat.add_sub_cancel' hk]

theorem pending?_window (h : s.Holds log) (hs : s.IsPlaced) (hk : k ≤ s.keepFrom) :
    (s.window log k).pending? = some s.pending := by
  have hkeep : s.keepFrom ≤ s.position := keepFrom_le hs
  change Window.slice? _ (s.rebase k).keepFrom (s.position - k) = _
  rw [keepFrom_rebase, window, slice?_drop hk hkeep h.position_le, h.position, List.take_left, pending,
    h.held]

theorem dropBefore?_window (h : s.Holds log) (hs : s.IsPlaced) (hk : k ≤ s.keepFrom) :
    (s.window log k).dropBefore? (s.keepFrom - k) = some (s.window log s.keepFrom) := by
  have hkeep : s.keepFrom ≤ s.position := keepFrom_le hs
  have hposition : Window.distance? (s.keepFrom - k) (s.rebase k).position =
      some (s.position - s.keepFrom) := distance?_rebase hk hkeep
  have hinside : s.keepFrom - k ≤ ((log ++ s.unread).drop k).length := by
    rw [List.length_drop]
    exact Nat.sub_le_sub_right (Nat.le_trans hkeep h.position_le) k
  have htag : s.tagStart - k - (s.keepFrom - k) = s.tagStart - s.keepFrom := by omega
  have hdrop : ((log ++ s.unread).drop k).drop (s.keepFrom - k) =
      (log ++ s.unread).drop s.keepFrom := by
    rw [List.drop_drop, Nat.add_sub_cancel' hk]
  simp only [Window.dropBefore?, window, hposition, if_pos hinside, hdrop, Option.bind_eq_bind,
    Option.bind_some]
  cases hf : s.frameStart with
  | none => simp only [rebase, hf, Option.map_none, htag]
  | some st =>
    have hst : s.keepFrom = st := by simp only [keepFrom, hf]
    have hframe : Window.distance? (s.keepFrom - k) (st - k) = some (st - s.keepFrom) :=
      distance?_rebase hk (Nat.le_of_eq hst)
    simp only [rebase, hf, Option.map_some, hframe, Option.bind_some, htag]

theorem compact?_window (h : s.Holds log) (hs : s.IsPlaced) (hk : k ≤ s.keepFrom) :
    (s.window log k).compact? = some (s.window log s.keepFrom) := by
  have hkeep : (s.window log k).splitter.keepFrom = s.keepFrom - k := keepFrom_rebase
  simp only [Window.compact?, hkeep]
  split
  · have heq : s.keepFrom = k := by omega
    rw [heq]
  · exact dropBefore?_window h hs hk

theorem told?_window {event : Event} (hk : k ≤ s.keepFrom) (h : Scans s log bs (t, some event) more) :
    (t.window (log ++ more) k).told? (event.recast (· - k) fun _ => []) =
      some (event.rebase k) := by
  cases event with
  | fault e => rfl
  | frame start stop bytes =>
    obtain ⟨hstart, hle, hstop, hbytes⟩ := h.frame start stop bytes rfl
    have hinside : stop ≤ (log ++ more ++ t.unread).length :=
      hstop ▸ (List.prefix_append ..).length_le
    have htaken : ((log ++ more ++ t.unread).take stop).drop start = bytes := by
      rw [hstop, List.take_left, hbytes]
    simp only [Event.rebase, Event.recast, Window.told?, window,
      slice?_drop (Nat.le_trans hk hstart) hle hinside, htaken, Option.map_some]

theorem next?_window (h : s.Holds log) (hs : s.IsSound) (hk : k ≤ s.keepFrom) :
    ∃ more, Scans s log s.unread s.next? more ∧ (s.window log k).next? =
      some (s.next?.1.window (log ++ more) s.keepFrom, s.next?.2.map (·.rebase s.keepFrom)) := by
  obtain ⟨more, hscans⟩ : ∃ more, Scans s log s.unread s.next? more := exists_scans h hs s.unread
  refine ⟨more, hscans, ?_⟩
  have hunread : (s.window log s.keepFrom).bytes.drop (s.window log s.keepFrom).splitter.position =
      s.unread := by
    have hkeep : s.keepFrom ≤ s.position := keepFrom_le hs.placed
    change ((log ++ s.unread).drop s.keepFrom).drop (s.position - s.keepFrom) = s.unread
    rw [List.drop_drop, Nat.add_sub_cancel' hkeep, h.position, List.drop_left]
  have hscan : Window.scanBytes? (s.window log s.keepFrom).splitter s.unread =
      some (mapRebase s.keepFrom s.next?) := scanBytes?_rebase h hs (Nat.le_refl _) s.unread
  have hbytes : (s.window log s.keepFrom).bytes =
      (s.next?.1.window (log ++ more) s.keepFrom).bytes := by
    simp only [window, List.append_assoc, hscans.unread]
  simp only [Window.next?, compact?_window h hs.placed hk, Option.bind_eq_bind, Option.bind_some,
    hunread, hscan]
  rw [hbytes]
  cases hn : s.next? with
  | mk t event =>
    rw [hn] at hscans
    cases event with
    | none => rfl
    | some event =>
      have htold := told?_window (Nat.le_refl s.keepFrom) hscans
      change ((t.window (log ++ more) s.keepFrom).told? (event.recast _ _)).map _ = _
      rw [htold]
      rfl

end Splitter

def Event.IsRebased (e f : Event) : Prop := ∃ k, e = f.rebase k

theorem Event.isRebased_toList (k : Nat) (event : Option Event) :
    List.Forall₂ IsRebased (event.map (·.rebase k)).toList event.toList := by
  cases event with
  | none => exact .nil
  | some event => exact .cons ⟨k, rfl⟩ .nil

namespace Window

variable {w w' : Window} {s : Splitter} {start stop : Nat} {bytes : Bytes}

theorem slice?_eq_some_iff : w.slice? start stop = some bytes ↔
    start ≤ stop ∧ stop ≤ w.bytes.length ∧ bytes = (w.bytes.take stop).drop start := by
  simp only [slice?, Option.ite_none_right_eq_some, Option.some.injEq, and_assoc, eq_comm (a := bytes)]

theorem slice?_of_told? {event : Event} (h : w.told? event = some (.frame start stop bytes)) :
    w.slice? start stop = some bytes := by
  cases event with
  | fault e => cases h
  | frame start' stop' bytes' =>
    obtain ⟨part, hslice, hpart⟩ := Option.map_eq_some_iff.1 h
    cases hpart
    exact hslice

theorem slice?_of_next? (h : w.next? = some (w', some (.frame start stop bytes))) :
    w'.slice? start stop = some bytes := by
  simp only [next?, Option.bind_eq_bind, Option.bind_eq_some_iff] at h
  obtain ⟨compacted, -, ⟨s, event⟩, -, h⟩ := h
  cases event with
  | none => cases h
  | some event =>
    obtain ⟨told, htold, h⟩ := Option.map_eq_some_iff.1 h
    cases h
    exact slice?_of_told? htold

/-- The window has what the splitter may still need of a stream. -/
def Shows (w : Window) (s : Splitter) : Prop :=
  ∃ log k, s.Holds log ∧ s.IsSound ∧ k ≤ s.keepFrom ∧ w = s.window log k

theorem shows_ofLimit (limit : Nat) : (ofLimit limit).Shows (.ofLimit limit) :=
  ⟨[], 0, Splitter.holds_ofLimit limit, Splitter.isSound_ofLimit limit, Nat.zero_le _, rfl⟩

namespace Shows

variable (h : w.Shows s)
include h

theorem extend (bs : Bytes) : (w.extend bs).Shows (s.extend bs) := by
  obtain ⟨log, k, hholds, hsound, hk, rfl⟩ := h
  have hk' : k ≤ (log ++ s.unread).length :=
    Nat.le_trans (Nat.le_trans hk (Splitter.keepFrom_le hsound.placed)) hholds.position_le
  have hbytes : (log ++ s.unread).drop k ++ bs = (log ++ (s.unread ++ bs)).drop k := by
    rw [← List.append_assoc, List.drop_append_of_le_length hk']
  refine ⟨log, k, hholds.withUnread _, hsound.withUnread _, hk, ?_⟩
  change Window.mk ((log ++ s.unread).drop k ++ bs) (s.rebase k) = _
  rw [hbytes]
  rfl

theorem next? : ∃ w' k, w.next? = some (w', s.next?.2.map (·.rebase k)) ∧ w'.Shows s.next?.1 := by
  obtain ⟨log, k, hholds, hsound, hk, rfl⟩ := h
  obtain ⟨more, hscans, hnext⟩ := Splitter.next?_window hholds hsound hk
  exact ⟨_, _, hnext, _, _, hscans.holds, hscans.sound, hscans.keepFrom_le, rfl⟩

theorem answer? (call : Call) :
    ∃ w' k, w.answer? call = some (w', (s.answer call).2.map (·.rebase k)) ∧
      w'.Shows (s.answer call).1 := by
  cases call with
  | extend bs => exact ⟨_, 0, rfl, h.extend bs⟩
  | scan => exact h.next?

theorem answers? (calls : List Call) :
    ∃ w' told, w.answers? calls = some (w', told) ∧ w'.Shows (s.answers calls).1 ∧
      List.Forall₂ Event.IsRebased told (s.answers calls).2 := by
  induction calls generalizing w s with
  | nil => exact ⟨w, [], rfl, h, .nil⟩
  | cons call calls ih =>
    obtain ⟨w₁, k, hcall, hshows⟩ := h.answer? call
    obtain ⟨w₂, told, hcalls, hshows', hevents⟩ := ih hshows
    refine ⟨w₂, ((s.answer call).2.map (·.rebase k)).toList ++ told, ?_, hshows', ?_⟩
    · simp only [Window.answers?, hcall, hcalls, Option.bind_eq_bind, Option.bind_some]
    · exact List.rel_append (Event.isRebased_toList k (s.answer call).2) hevents

end Shows

/-- The offsets are in order and lie in what is at hand, and elements are open exactly while a
frame is either open or skipped. -/
structure IsSound (w : Window) : Prop where
  keepFrom_le : w.splitter.keepFrom ≤ w.splitter.position
  position_le : w.splitter.position ≤ w.bytes.length
  frameStart_le : ∀ st ∈ w.splitter.frameStart, st ≤ w.splitter.position
  idle : w.splitter.opened = [] ↔ w.splitter.frameStart = none ∧ w.splitter.skipping = false
  busy : w.splitter.opened ≠ [] → Xor (w.splitter.frameStart ≠ none) (w.splitter.skipping = true)

theorem Shows.isSound (h : w.Shows s) : w.IsSound := by
  obtain ⟨log, k, hholds, hsound, hk, rfl⟩ := h
  have hkeep : s.keepFrom ≤ s.position := Splitter.keepFrom_le hsound.placed
  have hframe : (s.rebase k).frameStart = none ↔ s.frameStart = none := Option.map_eq_none_iff
  constructor
  · change (s.rebase k).keepFrom ≤ s.position - k
    rw [Splitter.keepFrom_rebase]
    exact Nat.sub_le_sub_right hkeep k
  · change s.position - k ≤ ((log ++ s.unread).drop k).length
    rw [List.length_drop]
    exact Nat.sub_le_sub_right hholds.position_le k
  · intro st hst
    obtain ⟨st', hst', rfl⟩ := Option.map_eq_some_iff.1 hst
    exact Nat.sub_le_sub_right (Nat.le_of_lt (hsound.placed.start st' hst')) k
  · change s.opened = [] ↔ (s.rebase k).frameStart = none ∧ s.skipping = false
    rw [hframe]
    refine ⟨hsound.balanced.idle, fun ⟨hnone, hskipping⟩ => ?_⟩
    by_contra hopened
    have := (hsound.balanced.busy hopened).1 hnone
    simp [hskipping] at this
  · intro hopened
    change Xor ((s.rebase k).frameStart ≠ none) (s.skipping = true)
    rw [Ne, hframe, xor_not_left]
    exact hsound.balanced.busy hopened

theorem Shows.splitter (h : w.Shows s) : ∃ k, w.splitter = s.rebase k := by
  obtain ⟨log, k, -, -, -, rfl⟩ := h
  exact ⟨k, rfl⟩

theorem Shows.pending? (h : w.Shows s) : w.pending? = some s.pending := by
  obtain ⟨log, k, hholds, hsound, hk, rfl⟩ := h
  exact Splitter.pending?_window hholds hsound.placed hk

/-- Whatever is asked of a window and in whatever order, there is an answer: no offset is taken from
a smaller one, and no byte is asked for that is not at hand. The window goes along with a splitter
whose offsets count from the start of the stream, and tells what this one tells. -/
theorem calls_stay_in_window (limit : Nat) (calls : List Call) :
    ∃ w told, (ofLimit limit).answers? calls = some (w, told) ∧ w.IsSound ∧
      (∃ k, w.splitter = ((Splitter.ofLimit limit).answers calls).1.rebase k) ∧
      w.pending? = some ((Splitter.ofLimit limit).answers calls).1.pending ∧
      List.Forall₂ Event.IsRebased told ((Splitter.ofLimit limit).answers calls).2 ∧
      ∃ w' event, w.next? = some (w', event) ∧ ∀ start stop bytes,
        event = some (.frame start stop bytes) →
          start ≤ stop ∧ stop ≤ w'.bytes.length ∧ bytes = (w'.bytes.take stop).drop start := by
  obtain ⟨w, told, hcalls, hshows, hevents⟩ := (shows_ofLimit limit).answers? calls
  obtain ⟨w', k, hnext, -⟩ := hshows.next?
  refine ⟨w, told, hcalls, hshows.isSound, hshows.splitter, hshows.pending?, hevents, w', _, hnext, ?_⟩
  intro start stop bytes hevent
  rw [hevent] at hnext
  exact slice?_eq_some_iff.1 (slice?_of_next? hnext)

-- Neither the mark nor the element that is cut short is at hand any more when the frame is told.
example : ((ofLimit 64).answers? [.extend (Text.utf8 "?<a><message/>"), .scan, .scan, .scan]).map
    (·.2) = some [
      .fault (.malformed "stream" .unexpectedText),
      .fault (.malformed "a" (.truncated "message")),
      .frame 0 10 (Text.utf8 "<message/>")] := by
  decide +kernel

end Window
end InstrumentBus.Wire
