import Osdev.Bitmap.Spec
import Osdev.Lib.Run

/-!
# Key events (`kernel/input.c`)

`key_states` has a bit for each key and `key_modifiers` one for each kind of modifier. The left and
the right key of a kind share its bit: releasing one of them clears the bit, also while the other
one is held.
-/

namespace Osdev.Input

open Osdev.Lib Osdev.Bmp

/-- `KEY_MAX`. -/
def keyMax : Nat := 0x05F

/-- `MOD_CTRL`. -/
def modCtrl : BitVec 8 := 1 <<< 0
/-- `MOD_SHIFT`. -/
def modShift : BitVec 8 := 1 <<< 1
/-- `MOD_ALT`. -/
def modAlt : BitVec 8 := 1 <<< 2
/-- `MOD_META`. -/
def modMeta : BitVec 8 := 1 <<< 3
/-- `MOD_CAPS`. -/
def modCaps : BitVec 8 := 1 <<< 4

/-- `KEY_CODE`. -/
def keyCode (value : BitVec 32) : Nat := value.toNat % 2 ^ 16

/-- `KEY_STATE`. -/
def keyState (value : BitVec 32) : Bool := value.getLsbD 16

/-- `key_to_modifier_bit`. -/
def keyToModifierBit (key : Nat) : BitVec 8 :=
  match key with
  | 0x008 | 0x00C => modCtrl -- `KEY_LCTRL`, `KEY_RCTRL`
  | 0x009 | 0x00D => modShift -- `KEY_LSHIFT`, `KEY_RSHIFT`
  | 0x00A | 0x00E => modAlt -- `KEY_LALT`, `KEY_RALT`
  | 0x00B | 0x00F => modMeta -- `KEY_LMETA`, `KEY_RMETA`
  | 0x046 => modCaps -- `KEY_CAPSLOCK`
  | _ => 0

/-- `input_key_event_t`. -/
structure KeyEvent where
  key : Nat
  modifiers : BitVec 8
  deriving DecidableEq

structure State where
  keyStates : Bitmap
  keyModifiers : BitVec 8
  /-- what was sent to `key_event_stream` -/
  sent : List KeyEvent

def updateKeyState (pressed : Bool) (key : Nat) (states : Bitmap) : Except Panic (Bool × Bitmap) :=
  if pressed then bitmapSet states key else bitmapClear states key

/-- `key_modifiers |= bit` or `key_modifiers &= ~bit`, where the key has a modifier bit. -/
def updateModifiers (pressed : Bool) (bit modifiers : BitVec 8) : BitVec 8 :=
  if bit ≠ 0 then (if pressed then modifiers ||| bit else modifiers &&& ~~~ bit) else modifiers

/-- `input_process_key_event`. The modifiers are updated with the key and once more after it. -/
def inputProcessKeyEvent (s : State) (value : BitVec 32) : Except Panic (Int × State) :=
  let key := keyCode value
  let bit := keyToModifierBit key
  let pressed := keyState value
  if keyMax ≤ key then .ok (-1, s) else do
    let (_, states) ← updateKeyState pressed key s.keyStates
    let modifiers := updateModifiers pressed bit (updateModifiers pressed bit s.keyModifiers)
    let sent := if pressed then s.sent ++ [⟨key, modifiers⟩] else s.sent
    .ok (0, ⟨states, modifiers, sent⟩)

/-- The input state, with the keys that are held down. -/
structure Typing where
  input : State
  held : Nat → Bool

/-- `input_init`, over memory that holds `mem`. -/
def initial (mem : Nat → Word) (front : Word) : Typing :=
  ⟨⟨createBitmap mem front (keyMax + 1), 0, []⟩, fun _ => false⟩

/-- The keys that are held after an event. -/
def hold (held : Nat → Bool) (value : BitVec 32) : Nat → Bool :=
  Function.update held (keyCode value) (keyState value)

def Typing.Step (x : Typing) (value : BitVec 32) (x' : Typing) : Prop :=
  ∃ r s, inputProcessKeyEvent x.input value = .ok (r, s) ∧ x' = ⟨s, hold x.held value⟩

/-- A modifier is on exactly if a key with its bit is held. -/
def Mirrors (modifiers : BitVec 8) (held : Nat → Bool) : Prop :=
  ∀ i, modifiers.getLsbD i = true ↔ ∃ k, held k = true ∧ (keyToModifierBit k).getLsbD i = true

/-- The event is processed, after it the modifiers and the key states are those of the held keys,
and for a press the key is sent with these modifiers. -/
def Typing.Right (x : Typing) (value : BitVec 32) : Prop :=
  ∃ r s, inputProcessKeyEvent x.input value = .ok (r, s) ∧ Mirrors s.keyModifiers
    (hold x.held value) ∧
    (∀ k < keyMax, s.keyStates.bit k = hold x.held value k) ∧
    s.sent = x.input.sent ++
      if keyState value ∧ keyCode value < keyMax then [⟨keyCode value, s.keyModifiers⟩] else []

/-- If the event releases a modifier key, then no other key with the same modifier bit is held. -/
def Typing.LastOfKind (x : Typing) (value : BitVec 32) : Prop :=
  keyState value = false → ∀ k ≠ keyCode value, x.held k = true →
    keyToModifierBit k = keyToModifierBit (keyCode value) → keyToModifierBit k = 0

variable {x : Typing} {s : State} {value : BitVec 32} {held : Nat → Bool} {k k' i : Nat}

/-- A modifier bit is a single bit. -/
theorem keyToModifierBit_eq_twoPow (h : (keyToModifierBit k).getLsbD i = true) :
    keyToModifierBit k = BitVec.twoPow 8 i := by
  have hbits : ∀ m ∈ [modCtrl, modShift, modAlt, modMeta, modCaps, 0], ∀ i < 8,
      m.getLsbD i = true → m = BitVec.twoPow 8 i := by decide
  refine hbits _ ?_ i (BitVec.lt_of_getLsbD h) h
  unfold keyToModifierBit
  split <;> simp

theorem keyToModifierBit_eq_zero (h : keyMax ≤ k) : keyToModifierBit k = 0 := by
  unfold keyMax at h
  unfold keyToModifierBit
  split <;> first | omega | rfl

theorem getLsbD_updateModifiers (pressed : Bool) (bit modifiers : BitVec 8) (i : Nat) :
    (updateModifiers pressed bit modifiers).getLsbD i =
      if bit.getLsbD i then pressed else modifiers.getLsbD i := by
  have hmod : modifiers.getLsbD i = true → i < 8 := BitVec.lt_of_getLsbD
  unfold updateModifiers
  cases pressed <;> cases hi : bit.getLsbD i <;> split <;> simp_all

/-- The update of the key states. The counters of the bitmap keep their sum, so that the assertion
about the index does not fail. -/
theorem updateKeyState_eq {b : Bitmap} (hk : k < addWord b.used b.free) (pressed : Bool) :
    ∃ r b', updateKeyState pressed k b = .ok (r, b') ∧
      addWord b'.used b'.free = addWord b.used b.free ∧
      ∀ j, b'.bit j = if j = k then pressed else b.bit j := by
  cases pressed with
  | true =>
    have hset : bitmapSet b k = .ok (_, _) := if_pos hk
    refine ⟨_, _, hset, ?_, fun j => ?_⟩
    · simp only [Bitmap.setWord, addWord, subWord, word]
      omega
    · rw [bitmapSet_bit hset]
      by_cases hj : j = k <;> simp [hj]
  | false =>
    have hclear : bitmapClear b k = .ok (_, _) := if_pos hk
    refine ⟨_, _, hclear, ?_, fun j => ?_⟩
    · simp only [Bitmap.setWord, addWord, subWord, word]
      omega
    · rw [bitmapClear_bit hclear]
      by_cases hj : j = k <;> simp [hj]

/-- What an event does, from a state in which the key states have a bit for each key. -/
theorem inputProcessKeyEvent_eq (value : BitVec 32)
    (hsize : addWord s.keyStates.used s.keyStates.free = keyMax + 1) :
    ∃ r s', inputProcessKeyEvent s value = .ok (r, s') ∧
      addWord s'.keyStates.used s'.keyStates.free = keyMax + 1 ∧
      s'.keyModifiers =
        updateModifiers (keyState value) (keyToModifierBit (keyCode value)) s.keyModifiers ∧
      (∀ k < keyMax, s'.keyStates.bit k =
        if k = keyCode value then keyState value else s.keyStates.bit k) ∧
      s'.sent = s.sent ++
        if keyState value ∧ keyCode value < keyMax then [⟨keyCode value, s'.keyModifiers⟩]
        else [] := by
  by_cases hkey : keyMax ≤ keyCode value
  · refine ⟨_, _, if_pos hkey, hsize, ?_, fun k hk => ?_, ?_⟩
    · simp [keyToModifierBit_eq_zero hkey, updateModifiers]
    · rw [if_neg (by omega)]
    · simp [hkey]
  · obtain ⟨r, b, hrun, htotal, hbits⟩ :=
      updateKeyState_eq (b := s.keyStates) (k := keyCode value) (by omega) (keyState value)
    have hevent : inputProcessKeyEvent s value = .ok (0, ⟨b, _, _⟩) :=
      (if_neg hkey).trans (congrArg (· >>= _) hrun)
    refine ⟨_, _, hevent, htotal.trans hsize, BitVec.eq_of_getLsbD_eq fun i _ => ?_,
      fun k _ => hbits k, ?_⟩
    · simp only [getLsbD_updateModifiers]
      split <;> rfl
    · cases keyState value <;> simp [Nat.lt_of_not_le hkey]

/-- The modifiers after an event are those of the held keys exactly if no other key of the kind is
held when a modifier key is released. -/
theorem mirrors_iff_lastOfKind (hx : Mirrors x.input.keyModifiers x.held) :
    Mirrors
      (updateModifiers (keyState value) (keyToModifierBit (keyCode value)) x.input.keyModifiers)
      (hold x.held value) ↔ x.LastOfKind value := by
  constructor
  · intro h hup k hne hk hkind
    by_contra hzero
    obtain ⟨i, hi⟩ : ∃ i, (keyToModifierBit k).getLsbD i = true := by
      by_contra hnone
      exact hzero (BitVec.eq_of_getLsbD_eq fun i _ => by simpa using fun hi => hnone ⟨i, hi⟩)
    have hon := (h i).mpr ⟨k, by rw [hold, Function.update_of_ne hne, hk], hi⟩
    rw [getLsbD_updateModifiers, ← hkind, hi, hup] at hon
    cases hon
  · intro hlast i
    rw [getLsbD_updateModifiers]
    by_cases hbit : (keyToModifierBit (keyCode value)).getLsbD i = true
    · rw [if_pos hbit]
      constructor
      · intro hdown
        exact ⟨keyCode value, by rw [hold, Function.update_self, hdown], hbit⟩
      · rintro ⟨k, hk, hi⟩
        by_contra hup
        obtain rfl | hne := eq_or_ne k (keyCode value)
        · rw [hold, Function.update_self] at hk
          exact hup hk
        rw [hold, Function.update_of_ne hne] at hk
        have hkind := (keyToModifierBit_eq_twoPow hi).trans (keyToModifierBit_eq_twoPow hbit).symm
        rw [hlast (Bool.eq_false_iff.mpr hup) k hne hk hkind] at hi
        simp at hi
    · rw [if_neg hbit, hx i]
      refine exists_congr fun k => and_congr_left fun hi => ?_
      rw [hold, Function.update_of_ne fun he : k = keyCode value => hbit (he ▸ hi)]

/-- What holds as long as every event was right. -/
structure Typing.Inv (x : Typing) : Prop where
  total : addWord x.input.keyStates.used x.input.keyStates.free = keyMax + 1
  mirrors : Mirrors x.input.keyModifiers x.held
  states : ∀ k < keyMax, x.input.keyStates.bit k = x.held k

theorem Typing.Inv.right_iff (hx : x.Inv) : x.Right value ↔ x.LastOfKind value := by
  obtain ⟨r, s, hrun, -, hmod, hbits, hsent⟩ := inputProcessKeyEvent_eq value hx.total
  refine Iff.trans ?_ (mirrors_iff_lastOfKind hx.mirrors)
  rw [← hmod]
  constructor
  · rintro ⟨r', s', hrun', hmirrors, -⟩
    cases hrun.symm.trans hrun'
    exact hmirrors
  · intro hmirrors
    refine ⟨r, s, hrun, hmirrors, fun k hk => ?_, hsent⟩
    rw [hbits k hk, hx.states k hk, hold, Function.update_apply]

theorem Typing.Inv.step {x' : Typing} (hx : x.Inv) (hright : x.Right value) (h : x.Step value x') :
    x'.Inv := by
  obtain ⟨r, s, hrun, rfl⟩ := h
  obtain ⟨r', s', hrun', htotal, -⟩ := inputProcessKeyEvent_eq value hx.total
  obtain ⟨r1, s1, hrun1, hmirrors, hstates, -⟩ := hright
  cases hrun.symm.trans hrun'
  cases hrun.symm.trans hrun1
  exact ⟨htotal, hmirrors, hstates⟩

theorem initial_inv (mem : Nat → Word) (front : Word) : (initial mem front).Inv where
  total := rfl
  mirrors i := by simp [initial]
  states k hk := by
    have hk : 8 * (k / 64 + 1) ≤ 16 := by unfold keyMax at hk; omega
    exact (congrArg (BitVec.getLsbD · (k % 64)) (if_pos hk)).trans (by simp [initial])

/-- **For every sequence of key events, the modifiers are those of the held keys after each event,
and every press is sent with them, exactly if no modifier key is released while another key of its
kind is held.** -/
theorem events_right_iff (mem : Nat → Word) (front : Word) (values : List (BitVec 32)) :
    AllSteps Typing.Step Typing.Right values (initial mem front) ↔
      AllSteps Typing.Step Typing.LastOfKind values (initial mem front) :=
  allSteps_congr (fun _ _ hx _ => hx.right_iff) (fun _ _ _ hx _ => hx.step)
    (initial_inv mem front) (allSteps_of_forall fun _ _ => trivial)

/-- `KEY_VALUE`. -/
def keyValue (code state : Nat) : BitVec 32 := BitVec.ofNat 32 (code ||| (state &&& 1) <<< 16)

def processAll (values : List (BitVec 32)) (s : State) : Except Panic State :=
  values.foldlM (fun s value => (inputProcessKeyEvent s value).map Prod.snd) s

/-- Both shift keys are pressed, the left one is released, and a letter is pressed. -/
def shiftEvents : List (BitVec 32) :=
  [keyValue 0x009 1, keyValue 0x00D 1, keyValue 0x009 0, keyValue 0x010 1]

/-- **The right shift key is held, but the shift modifier is off, and the letter is sent without
it.** -/
theorem right_shift_lost :
    (processAll shiftEvents (initial (fun _ => 0) 0).input).map
        (fun s => (s.keyStates.bit 0x00D, s.keyModifiers, s.sent.getLast?)) =
      .ok (true, 0, some ⟨0x010, 0⟩) ∧
    ¬ AllSteps Typing.Step Typing.Right shiftEvents (initial (fun _ => 0) 0) := by
  refine ⟨rfl, fun h => ?_⟩
  -- the release is the third event
  obtain ⟨r, s, hrun, hmirrors, -⟩ := ((h.2 _ ⟨_, _, rfl, rfl⟩).2 _ ⟨_, _, rfl, rfl⟩).1
  cases hrun
  cases (hmirrors 1).mpr ⟨0x00D, rfl, rfl⟩

end Osdev.Input
