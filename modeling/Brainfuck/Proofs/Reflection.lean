import Brainfuck.Proofs.Assembly
import Brainfuck.Proofs.Lexing
import Brainfuck.Proofs.Targets

/-!
# Texts seen from the other side of the tape

Exchanging `<` and `>` in a text exchanges the two directions in all that comes of it: in its tokens
(`Lexer.tokens_reflectText`), in the loop idioms among them (`Idiom.recognize?_reflect`), in its
phrases (`Phrase.split_reflect`) and in what is assembled from them (`Program.ofPhrases_reflect`).
So it compiles to the same program with all distances negated, or is refused for the same bracket
(`Program.compile_reflectText`).

That an idiom is recognised from the other side is enough to be shown where it is recognised: since
reflecting twice changes nothing, no other is recognised there (`Idiom.map_reflect_of_some`).
-/

namespace Brainfuck

/-! ## What is reflected -/

/-- The character for the same command seen from the other side. -/
def reflectChar (c : Char) : Char := if c = '<' then '>' else if c = '>' then '<' else c

/-- The text with every `<` and `>` exchanged. -/
def reflectText (text : String) : String := text.map reflectChar

/-- The byte for the same command seen from the other side. -/
def reflectByte (byte : UInt8) : UInt8 :=
  if byte = 60 then 62 else if byte = 62 then 60 else byte

def Token.reflect (t : Token) : Token := ⟨t.command.reflect, t.offset⟩

def Target.reflect (t : Target) : Target := ⟨-t.offset, t.factor⟩

/-- The same effect seen from the other side. The targets of a copy are in ascending order from
either side. -/
def Effect.reflect : Effect → Effect
  | copy targets => copy (targets.map Target.reflect).reverse
  | scan d => scan d.opposite
  | effect => effect

def Idiom.reflect (i : Idiom) : Idiom := ⟨i.effect.reflect, i.length⟩

def Phrase.reflect : Phrase → Phrase
  | move d => move d.opposite
  | perform effect => perform effect.reflect
  | phrase => phrase

def Action.reflect : Action → Action
  | perform effect => perform effect.reflect
  | action => action

def Opcode.reflect (o : Opcode) : Opcode := ⟨-o.move, o.action.reflect⟩

def Assembly.reflect : Assembly → Assembly
  | ⟨pending, opened, code⟩ => ⟨-pending, opened, code.map Opcode.reflect⟩

/-- The program with every distance negated and the two scans exchanged. -/
def Program.reflect (p : Program) : Program := ⟨p.code.map Opcode.reflect⟩

@[simp] theorem Token.reflect_reflect (t : Token) : t.reflect.reflect = t := by
  obtain ⟨command, offset⟩ := t
  exact congrArg (Token.mk · offset) command.reflect_reflect

@[simp] theorem Target.reflect_reflect (t : Target) : t.reflect.reflect = t := by
  obtain ⟨offset, factor⟩ := t
  exact congrArg (Target.mk · factor) (Int.neg_neg offset)

@[simp] theorem Effect.reflect_reflect (effect : Effect) : effect.reflect.reflect = effect := by
  cases effect with
  | copy targets =>
    simp only [reflect, List.map_reverse, List.reverse_reverse, List.map_map]
    congr 1
    exact List.map_id'' Target.reflect_reflect targets
  | scan d => exact congrArg scan d.opposite_opposite
  | _ => rfl

@[simp] theorem Idiom.reflect_reflect (i : Idiom) : i.reflect.reflect = i := by
  obtain ⟨effect, length⟩ := i
  exact congrArg (Idiom.mk · length) effect.reflect_reflect

theorem map_reflect_reflect (tokens : List Token) :
    (tokens.map Token.reflect).map Token.reflect = tokens := by
  rw [List.map_map]
  exact List.map_id'' Token.reflect_reflect tokens

/-! ## Tokens -/

theorem reflectByte_ofNat {n : Nat} (h : n < 256) (hleft : n ≠ 60) (hright : n ≠ 62) :
    reflectByte (.ofNat n) = .ofNat n := by
  have hne {k : Nat} (hk : k < 256) (hn : n ≠ k) : UInt8.ofNat n ≠ UInt8.ofNat k := by
    intro heq
    have := congrArg UInt8.toNat heq
    rw [UInt8.toNat_ofNat', UInt8.toNat_ofNat', Nat.mod_eq_of_lt h, Nat.mod_eq_of_lt hk] at this
    exact hn this
  have hleft' : UInt8.ofNat n ≠ 60 := hne (by decide) hleft
  have hright' : UInt8.ofNat n ≠ 62 := hne (by decide) hright
  rw [reflectByte, if_neg hleft', if_neg hright']

/-- Beyond the two characters that are exchanged, no character has one of their bytes in it. -/
theorem map_reflectByte_utf8EncodeChar (c : Char) :
    (String.utf8EncodeChar c).map reflectByte = String.utf8EncodeChar (reflectChar c) := by
  by_cases hleft : c = '<'
  · subst hleft
    rfl
  · by_cases hright : c = '>'
    · subst hright
      rfl
    · have hne {c' : Char} (h : c ≠ c') : c.val.toNat ≠ c'.val.toNat := fun heq =>
        h (Char.ext (UInt32.toNat_inj.mp heq))
      have hleft' : c.val.toNat ≠ 60 := hne hleft
      have hright' : c.val.toNat ≠ 62 := hne hright
      rw [reflectChar, if_neg hleft, if_neg hright]
      unfold String.utf8EncodeChar
      dsimp only
      split
      · rw [List.map_singleton, reflectByte_ofNat (by omega) hleft' hright']
      · split
        · simp only [List.map_cons, List.map_nil]
          rw [reflectByte_ofNat, reflectByte_ofNat] <;> omega
        · split
          · simp only [List.map_cons, List.map_nil]
            rw [reflectByte_ofNat, reflectByte_ofNat, reflectByte_ofNat] <;> omega
          · simp only [List.map_cons, List.map_nil]
            rw [reflectByte_ofNat, reflectByte_ofNat, reflectByte_ofNat, reflectByte_ofNat] <;>
              omega

/-- The bytes of a text are those of its characters. -/
theorem toList_toUTF8 (text : String) :
    text.toUTF8.toList = text.toList.flatMap String.utf8EncodeChar := by
  rw [toList_eq_data, String.toUTF8_eq_toByteArray, ← String.utf8Encode_toList]
  exact List.toList_data_toByteArray

theorem toList_reflectText (text : String) :
    (reflectText text).toUTF8.toList = text.toUTF8.toList.map reflectByte := by
  rw [toList_toUTF8, toList_toUTF8, reflectText, String.toList_map, List.flatMap_map,
    List.map_flatMap]
  simp only [map_reflectByte_utf8EncodeChar]

theorem ofByte?_reflectByte (byte : UInt8) :
    Command.ofByte? (reflectByte byte) = (Command.ofByte? byte).map Command.reflect := by
  by_cases hleft : byte = 60
  · subst hleft
    rfl
  · by_cases hright : byte = 62
    · subst hright
      rfl
    · rw [reflectByte, if_neg hleft, if_neg hright]
      unfold Command.ofByte?
      rw [if_neg hright, if_neg hleft]
      repeat' split
      all_goals rfl

theorem tokensFrom_reflectByte (offset : Nat) (bytes : List UInt8) :
    tokensFrom offset (bytes.map reflectByte) = (tokensFrom offset bytes).map Token.reflect := by
  induction bytes generalizing offset with
  | nil => rfl
  | cons byte rest ih =>
    have hbyte := ofByte?_reflectByte byte
    rw [List.map_cons]
    cases h : Command.ofByte? byte with
    | none =>
      rw [h] at hbyte
      rw [tokensFrom_cons_comment _ hbyte, tokensFrom_cons_comment rest h, ih]
    | some c =>
      rw [h] at hbyte
      rw [tokensFrom_cons_command _ hbyte, tokensFrom_cons_command rest h, ih]
      rfl

/-- The tokens of a reflected text are the reflected tokens, at the same offsets. -/
theorem Lexer.tokens_reflectText (text : String) :
    (ofText (reflectText text)).tokens = (ofText text).tokens.map Token.reflect := by
  rw [tokens_ofText, tokens_ofText, toList_reflectText, tokensFrom_reflectByte]

/-! ## Idioms -/

section Rows

variable {f g : Token → Bool} (h : ∀ t, f t.reflect = g t) (tokens : List Token)

include h

theorem takeWhile_reflect :
    (tokens.map Token.reflect).takeWhile f = (tokens.takeWhile g).map Token.reflect := by
  rw [List.takeWhile_map, show f ∘ Token.reflect = g from funext h]

theorem dropWhile_reflect :
    (tokens.map Token.reflect).dropWhile f = (tokens.dropWhile g).map Token.reflect := by
  rw [List.dropWhile_map, show f ∘ Token.reflect = g from funext h]

theorem countP_reflect : (tokens.map Token.reflect).countP f = tokens.countP g := by
  rw [List.countP_map, show f ∘ Token.reflect = g from funext h]

end Rows

namespace Idiom

theorem outbound_reflect (d : Direction) (t : Token) :
    outbound d.opposite t.reflect = outbound d t := by
  obtain ⟨command, offset⟩ := t
  rcases command with ⟨_ | _⟩ | _ | _ | _ | _ | _ | _ <;> cases d <;> rfl

theorem moves_reflect (d : Direction) (t : Token) : moves d.opposite t.reflect = moves d t := by
  obtain ⟨command, offset⟩ := t
  rcases command with ⟨_ | _⟩ | _ | _ | _ | _ | _ | _ <;> cases d <;> rfl

theorem targetAt_reflect (d : Direction) (depth count : Nat) :
    targetAt d.opposite depth count = (targetAt d depth count).map Target.reflect := by
  unfold targetAt
  split
  · rfl
  · simp only [List.map_singleton, Target.reflect, Direction.unit_opposite, Int.neg_mul]

theorem targetsFrom_reflect (d : Direction) (depth count : Nat) (walk : List Token) :
    targetsFrom d.opposite depth count (walk.map Token.reflect) =
      (targetsFrom d depth count walk).map Target.reflect := by
  induction walk generalizing depth count with
  | nil => exact targetAt_reflect d depth count
  | cons t rest ih =>
    obtain ⟨command, offset⟩ := t
    cases command with
    | increment => exact ih depth (count + 1)
    | _ =>
      show targetAt d.opposite depth count ++
        targetsFrom d.opposite (depth + 1) 0 (rest.map Token.reflect) =
          (targetAt d depth count ++ targetsFrom d (depth + 1) 0 rest).map Target.reflect
      rw [List.map_append, targetAt_reflect, ih]

/-- The targets of a reflected walk come in the other order. -/
theorem targets_reflect (d : Direction) (walk : List Token) :
    targets d.opposite (walk.map Token.reflect) =
      ((targets d walk).map Target.reflect).reverse := by
  have hfrom := targetsFrom_reflect d 0 0 walk
  cases d with
  | left =>
    show targetsFrom .right 0 0 _ = ((targetsFrom .left 0 0 walk).reverse.map _).reverse
    rw [List.map_reverse, List.reverse_reverse]
    exact hfrom
  | right => exact congrArg List.reverse hfrom

theorem copyAlong?_reflect (d : Direction) (body : List Token) :
    copyAlong? d.opposite (body.map Token.reflect) = (copyAlong? d body).map reflect := by
  have hwalk := takeWhile_reflect (outbound_reflect d) body
  have hbehind := dropWhile_reflect (outbound_reflect d) body
  unfold copyAlong?
  dsimp only
  rw [hwalk, hbehind, takeWhile_reflect (moves_reflect d.opposite),
    dropWhile_reflect (moves_reflect d.opposite), countP_reflect (moves_reflect d),
    List.length_map, List.length_map, targets_reflect]
  -- both loops end at the token behind their way back, or are no copying loops
  cases (body.dropWhile (outbound d)).dropWhile (moves d.opposite) with
  | nil => rfl
  | cons t tail =>
    obtain ⟨command, offset⟩ := t
    cases command with
    | endLoop =>
      show (if _ then some _ else none) = Option.map reflect (if _ then some _ else none)
      split <;> rfl
    | _ => rfl

/-- A recogniser that knows an idiom from the other side knows exactly the same ones. -/
theorem map_reflect_of_some {f : List Token → Option Idiom}
    (hf : ∀ tokens i, f tokens = some i → f (tokens.map Token.reflect) = some i.reflect)
    (tokens : List Token) : f (tokens.map Token.reflect) = (f tokens).map reflect := by
  cases h : f tokens with
  | some i => exact hf tokens i h
  | none =>
    cases h' : f (tokens.map Token.reflect) with
    | none => rfl
    | some j =>
      have hback := hf _ j h'
      rw [map_reflect_reflect, h] at hback
      cases hback

theorem clear?_reflect (tokens : List Token) :
    clear? (tokens.map Token.reflect) = (clear? tokens).map reflect := by
  refine map_reflect_of_some ?_ tokens
  intro tokens i h
  unfold clear? at h
  split at h <;> cases h <;> rfl

theorem scan?_reflect (tokens : List Token) :
    scan? (tokens.map Token.reflect) = (scan? tokens).map reflect := by
  refine map_reflect_of_some ?_ tokens
  intro tokens i h
  unfold scan? at h
  split at h <;> cases h
  rfl

theorem copy?_reflect (tokens : List Token) :
    copy? (tokens.map Token.reflect) = (copy? tokens).map reflect := by
  refine map_reflect_of_some ?_ tokens
  intro tokens i h
  unfold copy? at h
  split at h
  next opening down d offset rest =>
    show copyAlong? d.opposite ((⟨.move d, offset⟩ :: rest).map Token.reflect) = _
    rw [copyAlong?_reflect, h]
    rfl
  next => cases h

/-- **The same idioms are recognised from the other side.** -/
theorem recognize?_reflect (tokens : List Token) :
    recognize? (tokens.map Token.reflect) = (recognize? tokens).map reflect := by
  simp only [recognize?, Option.orElse_eq_orElse, Option.orElse_eq_or, Option.map_or,
    clear?_reflect, copy?_reflect, scan?_reflect]

end Idiom

/-! ## Phrases -/

namespace Phrase

theorem runLength_reflect {c : Command} (hc : c.reflect = c) (tokens : List Token) :
    runLength c (tokens.map Token.reflect) = runLength c tokens := by
  have hcommand (t : Token) : decide (t.reflect.command = c) = decide (t.command = c) := by
    refine decide_eq_decide.mpr ⟨?_, ?_⟩
    · intro h
      rw [← hc, ← h]
      exact (Command.reflect_reflect t.command).symm
    · intro h
      rw [← hc, ← h]
      rfl
  unfold runLength
  rw [takeWhile_reflect hcommand, List.length_map]

/-- The phrase at the front takes up as many tokens from the other side. -/
theorem start_reflect (first : Token) (rest : List Token) :
    start first.reflect (rest.map Token.reflect) =
      ((start first rest).1.reflect, (start first rest).2) := by
  obtain ⟨command, offset⟩ := first
  cases command with
  | move d | read | write | endLoop => rfl
  | increment =>
    show (perform (.add (runLength .increment _ + 1)), runLength .increment _) = _
    rw [runLength_reflect rfl]
    rfl
  | decrement =>
    show (perform (.sub (runLength .decrement _ + 1)), runLength .decrement _) = _
    rw [runLength_reflect rfl]
    rfl
  | beginLoop =>
    have hidiom := Idiom.recognize?_reflect (⟨.beginLoop, offset⟩ :: rest)
    rw [List.map_cons] at hidiom
    rw [start, start]
    dsimp only [Token.reflect, Command.reflect] at hidiom ⊢
    rw [hidiom]
    cases Idiom.recognize? (⟨.beginLoop, offset⟩ :: rest) with
    | none => rfl
    | some i => rfl

/-- **A reflected row of tokens is cut into the reflected phrases.** -/
theorem split_reflect (tokens : List Token) :
    split (tokens.map Token.reflect) = (split tokens).map reflect := by
  -- by induction on the number of tokens, since a phrase may take up many
  induction hlength : tokens.length using Nat.strongRecOn generalizing tokens with
  | ind n ih =>
    subst hlength
    cases tokens with
    | nil => rw [List.map_nil, split_nil, List.map_nil]
    | cons first rest =>
      rw [List.map_cons, split_cons, split_cons, start_reflect, ← List.map_drop, List.map_cons]
      dsimp only
      rw [ih _ ?_ (rest.drop (start first rest).2) rfl]
      rw [List.length_drop, List.length_cons]
      omega

end Phrase

/-! ## Programs -/

namespace Assembly

theorem empty_reflect : empty.reflect = empty := congrArg (mk 0 []) Array.map_empty

theorem emit_reflect (action : Action) (a : Assembly) :
    a.reflect.emit action.reflect = (a.emit action).reflect := by
  obtain ⟨pending, opened, code⟩ := a
  simp only [reflect, emit, Array.map_push]
  rfl

theorem beginLoop_reflect (offset : Nat) (a : Assembly) :
    a.reflect.beginLoop offset = (a.beginLoop offset).reflect := by
  obtain ⟨pending, opened, code⟩ := a
  simp only [reflect, beginLoop, Array.size_map, Array.map_push]
  rfl

/-- Filling in a partner is the same from either side. -/
theorem modify_reflect (code : Array Opcode) (index partner : Nat) :
    ((code.map Opcode.reflect).modify index fun opcode =>
        { opcode with action := .beginLoop partner }) =
      (code.modify index fun opcode => { opcode with action := .beginLoop partner }).map
        Opcode.reflect := by
  apply Array.ext_getElem?
  intro i
  rw [Array.getElem?_modify, Array.getElem?_map, Array.getElem?_map, Array.getElem?_modify]
  split
  · rw [Option.map_map, Option.map_map]
    rfl
  · rfl

theorem endLoop_reflect (offset : Nat) (a : Assembly) :
    a.reflect.endLoop offset = (a.endLoop offset).map reflect := by
  obtain ⟨pending, opened, code⟩ := a
  cases opened with
  | nil => rfl
  | cons start opened =>
    simp only [reflect, endLoop, Except.map, Array.size_map, Array.map_push]
    rw [modify_reflect]
    rfl

theorem add_reflect (a : Assembly) (phrase : Phrase) :
    a.reflect.add phrase.reflect = (a.add phrase).map reflect := by
  cases phrase with
  | move d =>
    obtain ⟨pending, opened, code⟩ := a
    refine congrArg (fun pending => Except.ok (Assembly.mk pending opened _)) ?_
    rw [Direction.unit_opposite]
    exact Int.neg_add.symm
  | perform effect => exact congrArg Except.ok (emit_reflect (.perform effect) a)
  | beginLoop offset => exact congrArg Except.ok (beginLoop_reflect offset a)
  | endLoop offset => exact endLoop_reflect offset a

theorem addAll_reflect (a : Assembly) (phrases : List Phrase) :
    a.reflect.addAll (phrases.map Phrase.reflect) = (a.addAll phrases).map reflect := by
  induction phrases generalizing a with
  | nil => rfl
  | cons phrase phrases ih =>
    rw [List.map_cons, addAll_cons, addAll_cons, add_reflect]
    cases a.add phrase with
    | error e => rfl
    | ok a' => exact ih a'

theorem finish_reflect (a : Assembly) : a.reflect.finish = a.finish.map Program.reflect := by
  obtain ⟨pending, opened, code⟩ := a
  cases opened <;> rfl

end Assembly

namespace Program

theorem ofPhrases_reflect (phrases : List Phrase) :
    ofPhrases (phrases.map Phrase.reflect) = (ofPhrases phrases).map reflect := by
  have hadd : Assembly.empty.addAll (phrases.map Phrase.reflect) =
      (Assembly.empty.addAll phrases).map Assembly.reflect := by
    rw [← Assembly.addAll_reflect, Assembly.empty_reflect]
  show (Assembly.empty.addAll (phrases.map Phrase.reflect) >>= fun a => a.finish) =
    (Assembly.empty.addAll phrases >>= fun a => a.finish).map reflect
  rw [hadd]
  cases Assembly.empty.addAll phrases with
  | error e => rfl
  | ok a => exact a.finish_reflect

/-- **A reflected text compiles to the reflected program**, or is refused for the same bracket. -/
theorem compile_reflectText (text : String) :
    compile (reflectText text) = (compile text).map reflect := by
  unfold compile ofTokens
  rw [Lexer.tokens_reflectText, Phrase.split_reflect, ofPhrases_reflect]

end Program

end Brainfuck
