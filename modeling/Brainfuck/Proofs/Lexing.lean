import Brainfuck.Proofs.Balance
import Brainfuck.Proofs.Spelling

/-!
# The tokens of a row of bytes

`tokensFrom offset bytes` tells the tokens of bytes without a lexer: the commands among them, each
with its place, where the first byte stands at `offset`. The lexer finds exactly these
(`Lexer.tokens_eq`).

A token has its byte at its place, with the tokens in front of it in the bytes in front and those
behind it in the bytes behind (`tokensFrom_eq_append`). So what the brackets among the bytes say,
the brackets among the tokens say too (`depth_tokensFrom`, `NeverBelow.of_tokensFrom`).
-/

namespace Brainfuck

/-- The bracket that stands in a byte of a source text. -/
def byteBracket? (byte : UInt8) : Option Bracket :=
  if byte = '['.toUInt8 then some .opening
  else if byte = ']'.toUInt8 then some .closing
  else none

/-- The bracket that the token is. -/
def Token.bracket? (t : Token) : Option Bracket := t.command.bracket?

/-- The tokens of bytes of which the first stands at `offset`. -/
def tokensFrom (offset : Nat) : List UInt8 → List Token
  | [] => []
  | byte :: rest =>
    match Command.ofByte? byte with
    | some command => ⟨command, offset⟩ :: tokensFrom (offset + 1) rest
    | none => tokensFrom (offset + 1) rest

theorem tokensFrom_cons_comment {offset : Nat} {byte : UInt8} (rest : List UInt8)
    (h : Command.ofByte? byte = none) :
    tokensFrom offset (byte :: rest) = tokensFrom (offset + 1) rest := by
  rw [tokensFrom, h]

theorem tokensFrom_cons_command {offset : Nat} {byte : UInt8} {c : Command} (rest : List UInt8)
    (h : Command.ofByte? byte = some c) :
    tokensFrom offset (byte :: rest) = ⟨c, offset⟩ :: tokensFrom (offset + 1) rest := by
  rw [tokensFrom, h]

/-- The lexer hands out the tokens of the bytes it has not read yet. -/
theorem Lexer.tokens_eq (rest : List UInt8) (offset : Nat) :
    tokens ⟨rest, offset⟩ = tokensFrom offset rest := by
  induction rest generalizing offset with
  | nil => exact tokens_of_next_none rfl
  | cons byte rest ih =>
    cases h : Command.ofByte? byte with
    | none =>
      rw [tokensFrom_cons_comment rest h, ← ih]
      cases hnext : next ⟨rest, offset + 1⟩ with
      | mk token l =>
        have hnext' := (next_cons_comment h).trans hnext
        cases token with
        | none => rw [tokens_of_next_none hnext, tokens_of_next_none hnext']
        | some t => rw [tokens_of_next_some hnext, tokens_of_next_some hnext']
    | some c =>
      rw [tokensFrom_cons_command rest h, ← ih]
      exact tokens_of_next_some (next_cons_command h)

theorem Lexer.tokens_ofText (text : String) :
    (ofText text).tokens = tokensFrom 0 text.toUTF8.toList :=
  tokens_eq _ 0

/-- There are no more tokens than bytes. -/
theorem length_tokensFrom_le (offset : Nat) (bytes : List UInt8) :
    (tokensFrom offset bytes).length ≤ bytes.length := by
  induction bytes generalizing offset with
  | nil => exact Nat.le_refl 0
  | cons byte rest ih =>
    cases h : Command.ofByte? byte with
    | none =>
      rw [tokensFrom_cons_comment rest h]
      exact Nat.le_succ_of_le (ih (offset + 1))
    | some c =>
      rw [tokensFrom_cons_command rest h]
      exact Nat.succ_le_succ (ih (offset + 1))

theorem toList_loop (bytes : ByteArray) (i : Nat) (seen : List UInt8) :
    ByteArray.toList.loop bytes i seen = seen.reverse ++ bytes.data.toList.drop i := by
  induction i, seen using ByteArray.toList.loop.induct bytes with
  | case1 i seen hlt ih =>
    have hlt' : i < bytes.data.toList.length := hlt
    have hbyte : bytes.get! i = bytes.data.toList[i] := by
      show bytes.data[i]! = _
      rw [getElem!_pos bytes.data i hlt, Array.getElem_toList]
    rw [ByteArray.toList.loop, if_pos hlt, ih, List.drop_eq_getElem_cons hlt', hbyte,
      List.reverse_cons, List.append_assoc, List.singleton_append]
  | case2 i seen hnot =>
    rw [ByteArray.toList.loop, if_neg hnot, List.drop_eq_nil_of_le (Nat.le_of_not_lt hnot),
      List.append_nil]

theorem toList_eq_data (bytes : ByteArray) : bytes.toList = bytes.data.toList :=
  toList_loop bytes 0 []

/-- There are no more tokens than the text is long. -/
theorem Lexer.length_tokens_le (text : String) :
    (ofText text).tokens.length ≤ text.utf8ByteSize := by
  rw [tokens_ofText, toList_eq_data]
  exact length_tokensFrom_le 0 _

theorem tokensFrom_append (offset : Nat) (front behind : List UInt8) :
    tokensFrom offset (front ++ behind) =
      tokensFrom offset front ++ tokensFrom (offset + front.length) behind := by
  induction front generalizing offset with
  | nil => rfl
  | cons byte front ih =>
    have hlength : offset + (byte :: front).length = offset + 1 + front.length := by
      rw [List.length_cons]
      omega
    rw [List.cons_append, hlength]
    cases h : Command.ofByte? byte with
    | none => rw [tokensFrom_cons_comment _ h, tokensFrom_cons_comment _ h, ih]
    | some c => rw [tokensFrom_cons_command _ h, tokensFrom_cons_command _ h, ih, List.cons_append]

/-- A token has its byte at its place. -/
theorem tokensFrom_eq_append {offset : Nat} {bytes : List UInt8} {front behind : List Token}
    {t : Token} (h : tokensFrom offset bytes = front ++ t :: behind) :
    ∃ before byte after, bytes = before ++ byte :: after ∧ t.offset = offset + before.length ∧
      Command.ofByte? byte = some t.command ∧ tokensFrom offset before = front ∧
      tokensFrom (t.offset + 1) after = behind := by
  induction bytes generalizing offset front with
  | nil => exact absurd h (by simp [tokensFrom])
  | cons byte rest ih =>
    -- what holds of the bytes behind the first holds of all of them
    have hlater : ∀ front', tokensFrom (offset + 1) rest = front' ++ t :: behind →
        (∀ before, tokensFrom (offset + 1) before = front' →
          tokensFrom offset (byte :: before) = front) →
        ∃ before byte' after, byte :: rest = before ++ byte' :: after ∧
          t.offset = offset + before.length ∧ Command.ofByte? byte' = some t.command ∧
          tokensFrom offset before = front ∧ tokensFrom (t.offset + 1) after = behind := by
      intro front' htokens hfront
      obtain ⟨before, byte', after, rfl, hoffset, hbyte, hbefore, hafter⟩ := ih htokens
      refine ⟨byte :: before, byte', after, rfl, ?_, hbyte, hfront before hbefore, hafter⟩
      rw [hoffset, List.length_cons]
      omega
    cases hbyte : Command.ofByte? byte with
    | none =>
      rw [tokensFrom_cons_comment rest hbyte] at h
      exact hlater front h fun before hbefore => by rw [tokensFrom_cons_comment _ hbyte, hbefore]
    | some c =>
      rw [tokensFrom_cons_command rest hbyte] at h
      cases front with
      | nil =>
        rw [List.nil_append, List.cons.injEq] at h
        obtain ⟨rfl, rfl⟩ := h
        exact ⟨[], byte, rest, rfl, rfl, hbyte, rfl, rfl⟩
      | cons t' front =>
        rw [List.cons_append, List.cons.injEq] at h
        obtain ⟨rfl, htokens⟩ := h
        exact hlater front htokens fun before hbefore => by
          rw [tokensFrom_cons_command _ hbyte, hbefore]

/-! ## Brackets of bytes and of tokens -/

theorem byteBracket?_eq (byte : UInt8) :
    byteBracket? byte = (Command.ofByte? byte).bind Command.bracket? := by
  cases h : Command.ofByte? byte with
  | some c =>
    rw [Command.ofByte?_eq_some_iff.mp h]
    rcases c with ⟨_ | _⟩ | _ | _ | _ | _ | _ | _ <;> rfl
  | none =>
    have hne : ∀ c : Command, byte ≠ c.symbol.toUInt8 := fun c hc => by
      rw [hc, Command.ofByte?_symbol] at h
      cases h
    have hopening : byte ≠ '['.toUInt8 := hne .beginLoop
    have hclosing : byte ≠ ']'.toUInt8 := hne .endLoop
    rw [byteBracket?, if_neg hopening, if_neg hclosing]
    rfl

/-- Bytes open and close as many loops as their tokens. -/
theorem depth_tokensFrom (offset : Nat) (bytes : List UInt8) :
    depth Token.bracket? (tokensFrom offset bytes) = depth byteBracket? bytes := by
  induction bytes generalizing offset with
  | nil => rfl
  | cons byte rest ih =>
    rw [depth_cons, byteBracket?_eq]
    cases h : Command.ofByte? byte with
    | none =>
      rw [tokensFrom_cons_comment rest h, ih]
      exact (Int.zero_add _).symm
    | some c =>
      rw [tokensFrom_cons_command rest h, depth_cons, ih]
      rfl

theorem NeverBelow.of_tokensFrom {offset : Nat} {bytes : List UInt8}
    (h : NeverBelow Token.bracket? (tokensFrom offset bytes)) : NeverBelow byteBracket? bytes := by
  rintro front ⟨behind, rfl⟩
  rw [tokensFrom_append] at h
  rw [← depth_tokensFrom offset]
  exact h.left.depth_nonneg

theorem Balanced.of_tokensFrom {offset : Nat} {bytes : List UInt8}
    (h : Balanced Token.bracket? (tokensFrom offset bytes)) : Balanced byteBracket? bytes :=
  ⟨h.neverBelow.of_tokensFrom, (depth_tokensFrom offset bytes).symm.trans h.depth_eq_zero⟩

end Brainfuck
