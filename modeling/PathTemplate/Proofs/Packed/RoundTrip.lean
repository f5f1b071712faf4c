import Mathlib.Algebra.Ring.Nat
import PathTemplate.Cache.Store

namespace PathTemplate

namespace Bytes

theorem littleEndian_length (width n : Nat) : (littleEndian width n).length = width := by
  induction width generalizing n with
  | zero => rfl
  | succ w ih => simp [littleEndian, ih]

theorem ofLittleEndian_littleEndian (width n : Nat) :
    ofLittleEndian (littleEndian width n) = n % 256 ^ width := by
  induction width generalizing n with
  | zero => simp [littleEndian, ofLittleEndian, Nat.mod_one]
  | succ w ih =>
    have hbyte : n.toUInt8.toNat = n % 256 := rfl
    rw [littleEndian, ofLittleEndian, ih, hbyte, Nat.pow_succ, Nat.mul_comm (256 ^ w),
      Nat.mod_mul]

end Bytes

theorem byteArray_toList (bytes : ByteArray) : bytes.toList = bytes.data.toList := by
  have hloop : ∀ i r, ByteArray.toList.loop bytes i r = r.reverse ++ bytes.data.toList.drop i := by
    intro i r
    fun_induction ByteArray.toList.loop bytes i r with
    | case1 i r h ih =>
      have hi : i < bytes.data.toList.length := by simpa using h
      have hget : bytes.get! i = bytes.data.toList[i] := by
        show bytes.data[i]! = _
        rw [getElem!_pos bytes.data i (by simpa using h), Array.getElem_toList]
      rw [ih, List.drop_eq_getElem_cons hi, hget]
      simp
    | case2 i r h =>
      have hi : bytes.data.toList.length ≤ i := by simpa using h
      rw [List.drop_eq_nil_of_le hi, List.append_nil]
  exact hloop 0 []

namespace Packed

theorem take_append {n : Nat} {bytes : List UInt8} (h : bytes.length = n) (rest : List UInt8) :
    take n (bytes ++ rest) = some (bytes, rest) := by
  subst h
  simp [take]

theorem readUint_uint {width n : Nat} (h : n < 256 ^ width) (rest : List UInt8) :
    readUint width (uint width n ++ rest) = some (n, rest) := by
  simp [readUint, uint, take_append (Bytes.littleEndian_length width n),
    Bytes.ofLittleEndian_littleEndian, Nat.mod_eq_of_lt h]

theorem readVariant_variant {index : Nat} (h : index < 16) (rest : List UInt8) :
    readVariant (variant index ++ rest) = some (index, rest) :=
  readUint_uint (by omega) rest

@[simp] theorem length_variant (index : Nat) : (variant index).length = 4 :=
  Bytes.littleEndian_length 4 index

theorem readWord_word {n : Nat} (h : n < 2 ^ 64) (rest : List UInt8) :
    readWord (word n ++ rest) = some (n, rest) :=
  readUint_uint h rest

theorem readSlot_slot {n : Nat} (h : n < 2 ^ 32) (rest : List UInt8) :
    readSlot (slot n ++ rest) = some (n, rest) :=
  readUint_uint h rest

theorem readFlag_flag (b : Bool) (rest : List UInt8) :
    readFlag (flag b ++ rest) = some (b, rest) := by
  cases b <;> rfl

def isSizedText (s : String) : Bool := s.utf8ByteSize < 2 ^ 64

theorem readString_string {s : String} (h : isSizedText s) (rest : List UInt8) :
    readString (string s ++ rest) = some (s, rest) := by
  have hlist : s.toByteArray.toList = s.toByteArray.data.toList := byteArray_toList _
  have hlen : s.toByteArray.data.toList.length < 2 ^ 64 := by
    have hsize : s.toByteArray.data.toList.length = s.utf8ByteSize := rfl
    rw [hsize]
    simpa [isSizedText] using h
  have hback : String.fromUTF8? ⟨s.toByteArray.data.toList.toArray⟩ = some s := by
    rw [Array.toArray_toList]
    exact dif_pos s.isValidUTF8
  simp only [readString, string, String.toUTF8_eq_toByteArray, hlist, List.append_assoc,
    readWord_word hlen, take_append rfl, hback, Option.bind_eq_bind, Option.bind_some,
    Option.pure_def]

theorem readMany_flatMap {α : Type} {read : Reader α} {write : α → List UInt8} {items : List α}
    (h : ∀ a ∈ items, ∀ rest, read (write a ++ rest) = some (a, rest)) (rest : List UInt8) :
    readMany read items.length (items.flatMap write ++ rest) = some (items, rest) := by
  induction items with
  | nil => rfl
  | cons a items ih =>
    have ha := h a List.mem_cons_self
    have hrest := ih fun b hb => h b (List.mem_cons_of_mem _ hb)
    simp [readMany, ha, hrest]

theorem readList_list {α : Type} {read : Reader α} {write : α → List UInt8} {items : List α}
    (hlen : items.length < 2 ^ 64)
    (h : ∀ a ∈ items, ∀ rest, read (write a ++ rest) = some (a, rest)) (rest : List UInt8) :
    readList read (list write items ++ rest) = some (items, rest) := by
  simp [readList, list, readWord_word hlen, readMany_flatMap h]

def isSizedTy : Ty → Bool
  | .enum name | .record name => isSizedText name
  | .list item => isSizedTy item
  | .map value => isSizedTy value
  | _ => true

/-- Each level of a type takes a byte at least, so the length of the form bounds the levels. -/
theorem readTy_ty {t : Ty} (h : isSizedTy t) (levels : Nat) (hl : (ty t).length ≤ levels)
    (rest : List UInt8) : readTy levels (ty t ++ rest) = some (t, rest) := by
  induction t generalizing levels with
  | list item ih | map value ih =>
    simp only [ty, List.length_append, length_variant] at hl
    obtain ⟨levels, rfl⟩ : ∃ n, levels = n + 1 := ⟨levels - 1, by omega⟩
    have hitem := ih h levels (by omega)
    simp [ty, readTy, readVariant_variant, hitem]
  | enum name | record name =>
    simp only [ty, List.length_append, length_variant] at hl
    obtain ⟨levels, rfl⟩ : ∃ n, levels = n + 1 := ⟨levels - 1, by omega⟩
    simp [ty, readTy, readVariant_variant, readString_string h]
  | _ =>
    simp only [ty, length_variant] at hl
    obtain ⟨levels, rfl⟩ : ∃ n, levels = n + 1 := ⟨levels - 1, by omega⟩
    simp [ty, readTy, readVariant_variant]

def isSizedConstant : Constant → Bool
  | .string s | .enum s => isSizedText s
  | _ => true

theorem readConstant_constant {c : Constant} (h : isSizedConstant c) (rest : List UInt8) :
    readConstant (constant c ++ rest) = some (c, rest) := by
  cases c with
  | bool b => simp [constant, readConstant, readVariant_variant, readFlag_flag]
  | byte n =>
    have hn : n.toUInt8.toNat < 256 ^ 1 := n.toUInt8.toNat_lt
    have hback : Int8.ofNat n.toUInt8.toNat = n :=
      congrArg UInt8.toInt8 (UInt8.ofNat_toNat (x := n.toUInt8))
    simp [constant, readConstant, readVariant_variant, readUint_uint hn, hback]
  | short n =>
    have hn : n.toUInt16.toNat < 256 ^ 2 := n.toUInt16.toNat_lt
    have hback : Int16.ofNat n.toUInt16.toNat = n :=
      congrArg UInt16.toInt16 (UInt16.ofNat_toNat (x := n.toUInt16))
    simp [constant, readConstant, readVariant_variant, readUint_uint hn, hback]
  | int n =>
    have hn : n.toUInt32.toNat < 256 ^ 4 := n.toUInt32.toNat_lt
    have hback : Int32.ofNat n.toUInt32.toNat = n :=
      congrArg UInt32.toInt32 (UInt32.ofNat_toNat (x := n.toUInt32))
    simp [constant, readConstant, readVariant_variant, readUint_uint hn, hback]
  | long n =>
    have hn : n.toUInt64.toNat < 256 ^ 8 := n.toUInt64.toNat_lt
    have hback : Int64.ofNat n.toUInt64.toNat = n :=
      congrArg UInt64.toInt64 (UInt64.ofNat_toNat (x := n.toUInt64))
    simp [constant, readConstant, readVariant_variant, readUint_uint hn, hback]
  | float x =>
    have hn : x.bits.toNat < 256 ^ 4 := x.bits.toNat_lt
    simp [constant, readConstant, readVariant_variant, readUint_uint hn, Numeric.Binary32.ofBits]
  | double x =>
    have hn : x.bits.toNat < 256 ^ 8 := x.bits.toNat_lt
    simp [constant, readConstant, readVariant_variant, readUint_uint hn, Numeric.Binary64.ofBits]
  | string s | enum s =>
    simp [constant, readConstant, readVariant_variant, readString_string h]

def isSizedFallback : Fallback → Bool
  | .constant c => isSizedConstant c
  | .param name => isSizedText name

theorem readFallback_fallback {f : Fallback} (h : isSizedFallback f) (rest : List UInt8) :
    readFallback (fallback f ++ rest) = some (f, rest) := by
  cases f with
  | constant c => simp [fallback, readFallback, readVariant_variant, readConstant_constant h]
  | param name => simp [fallback, readFallback, readVariant_variant, readString_string h]

theorem readOperator_operator (op : Operator) (rest : List UInt8) :
    readOperator (operator op ++ rest) = some (op, rest) := by
  cases op <;> simp [operator, readOperator, readVariant_variant]

theorem readOperand_operand (n : Operand) (rest : List UInt8) :
    readOperand (operand n ++ rest) = some (n, rest) := by
  cases n with
  | int n =>
    have hn : n.toUInt64.toNat < 256 ^ 8 := n.toUInt64.toNat_lt
    have hback : Int64.ofNat n.toUInt64.toNat = n :=
      congrArg UInt64.toInt64 (UInt64.ofNat_toNat (x := n.toUInt64))
    simp [operand, readOperand, readVariant_variant, readUint_uint hn, hback]
  | float x =>
    have hn : x.bits.toNat < 256 ^ 8 := x.bits.toNat_lt
    simp [operand, readOperand, readVariant_variant, readUint_uint hn, Numeric.Binary64.ofBits]

def isSizedAccess : Access → Bool
  | .field owner name | .method owner name => isSizedText owner && isSizedText name
  | .key name => isSizedText name

theorem readAccess_access {a : Access} (h : isSizedAccess a) (rest : List UInt8) :
    readAccess (access a ++ rest) = some (a, rest) := by
  cases a with
  | field owner name | method owner name =>
    obtain ⟨ho, hn⟩ := Bool.and_eq_true_iff.mp h
    simp [access, readAccess, readVariant_variant, readString_string ho, readString_string hn]
  | key name => simp [access, readAccess, readVariant_variant, readString_string h]

def isSizedArgument : Argument → Bool
  | .constant c => isSizedConstant c
  | .path steps => steps.length < 2 ^ 64 && steps.all isSizedAccess
  | .null => true

theorem readArgument_argument {a : Argument} (h : isSizedArgument a) (rest : List UInt8) :
    readArgument (argument a ++ rest) = some (a, rest) := by
  cases a with
  | constant c => simp [argument, readArgument, readVariant_variant, readConstant_constant h]
  | path steps =>
    simp only [isSizedArgument, Bool.and_eq_true, decide_eq_true_eq, List.all_eq_true] at h
    have hsteps := readList_list h.1 fun a ha => readAccess_access (h.2 a ha)
    simp [argument, readArgument, readVariant_variant, hsteps]
  | null => simp [argument, readArgument, readVariant_variant]

theorem readGuardKind_guardKind (g : GuardKind) (rest : List UInt8) :
    readGuardKind (guardKind g ++ rest) = some (g, rest) := by
  cases g <;> simp [guardKind, readGuardKind, readVariant_variant]

def isSizedCheck : EmitCheck → Bool
  | .default value => isSizedFallback value
  | _ => true

theorem readEmitCheck_emitCheck {c : EmitCheck} (h : isSizedCheck c) (rest : List UInt8) :
    readEmitCheck (emitCheck c ++ rest) = some (c, rest) := by
  cases c with
  | default value =>
    simp [emitCheck, readEmitCheck, readVariant_variant, readFallback_fallback h]
  | _ => simp [emitCheck, readEmitCheck, readVariant_variant]

mutual

def isSizedStmt : Stmt → Bool
  | .text s | .missing s => isSizedText s
  | .load dst src a => dst < 2 ^ 32 && src < 2 ^ 32 && isSizedAccess a
  | .math dst src _ _ t | .cast dst src t => dst < 2 ^ 32 && src < 2 ^ 32 && isSizedTy t
  | .call dst function args =>
    dst < 2 ^ 32 && isSizedText function && args.length < 2 ^ 64 && args.all isSizedArgument
  | .ifPresent _ value present otherwise =>
    value < 2 ^ 32 && present.length < 2 ^ 64 && allSizedStmts present &&
      otherwise.length < 2 ^ 64 && allSizedStmts otherwise
  | .emit value check => value < 2 ^ 32 && isSizedCheck check
  | .emitDefault value => isSizedFallback value
  | .capture sink parent body =>
    sink < 2 ^ 32 && parent < 2 ^ 32 && body.length < 2 ^ 64 && allSizedStmts body
  | .firstNonEmpty sink parent alternatives otherwise =>
    sink < 2 ^ 32 && parent < 2 ^ 32 && alternatives.length < 2 ^ 64 &&
      allSizedBlocks alternatives && otherwise.length < 2 ^ 64 && allSizedStmts otherwise

def allSizedStmts : List Stmt → Bool
  | [] => true
  | s :: rest => isSizedStmt s && allSizedStmts rest

def allSizedBlocks : List (List Stmt) → Bool
  | [] => true
  | b :: rest => b.length < 2 ^ 64 && allSizedStmts b && allSizedBlocks rest

end

theorem readList_word {α : Type} {read : Reader α} {n : Nat} (h : n < 2 ^ 64)
    (bytes : List UInt8) : readList read (word n ++ bytes) = readMany read n bytes := by
  simp [readList, readWord_word h]

-- A statement is longer than each of its parts, so the levels that are enough for it leave enough
-- for them.
mutual

theorem readStmt_stmt (st : Stmt) (h : isSizedStmt st) (levels : Nat)
    (hl : (stmt st).length ≤ levels) (rest : List UInt8) :
    readStmt levels (stmt st ++ rest) = some (st, rest) := by
  obtain ⟨levels, rfl⟩ : ∃ n, levels = n + 1 := by
    refine ⟨levels - 1, ?_⟩
    have hpos : 4 ≤ (stmt st).length := by
      cases st <;> simp only [stmt, List.length_append, length_variant] <;> omega
    omega
  match st with
  | .text s | .missing s =>
    simp [stmt, readStmt, readVariant_variant, readString_string h]
  | .load dst src a =>
    simp only [isSizedStmt, Bool.and_eq_true, decide_eq_true_eq] at h
    obtain ⟨⟨hd, hs⟩, ha⟩ := h
    simp [stmt, readStmt, readVariant_variant, readSlot_slot hd, readSlot_slot hs,
      readAccess_access ha]
  | .math dst src op n t =>
    simp only [isSizedStmt, Bool.and_eq_true, decide_eq_true_eq] at h
    obtain ⟨⟨hd, hs⟩, ht⟩ := h
    simp only [stmt, List.length_append, length_variant] at hl
    have hty := readTy_ty ht levels (by omega)
    simp [stmt, readStmt, readVariant_variant, readSlot_slot hd, readSlot_slot hs,
      readOperator_operator, readOperand_operand, hty]
  | .cast dst src t =>
    simp only [isSizedStmt, Bool.and_eq_true, decide_eq_true_eq] at h
    obtain ⟨⟨hd, hs⟩, ht⟩ := h
    simp only [stmt, List.length_append, length_variant] at hl
    have hty := readTy_ty ht levels (by omega)
    simp [stmt, readStmt, readVariant_variant, readSlot_slot hd, readSlot_slot hs, hty]
  | .call dst function args =>
    simp only [isSizedStmt, Bool.and_eq_true, decide_eq_true_eq, List.all_eq_true] at h
    obtain ⟨⟨⟨hd, hf⟩, hlen⟩, hargs⟩ := h
    have hread := readList_list hlen fun a ha => readArgument_argument (hargs a ha)
    simp [stmt, readStmt, readVariant_variant, readSlot_slot hd, readString_string hf, hread]
  | .ifPresent guard value present otherwise =>
    simp only [isSizedStmt, Bool.and_eq_true, decide_eq_true_eq] at h
    obtain ⟨⟨⟨⟨hv, hplen⟩, hp⟩, holen⟩, ho⟩ := h
    simp only [stmt, List.length_append, length_variant] at hl
    have hpresent := readMany_stmts present hp levels (by omega)
    have hotherwise := readMany_stmts otherwise ho levels (by omega)
    simp [stmt, readStmt, readVariant_variant, readGuardKind_guardKind, readSlot_slot hv,
      readList_word hplen, hpresent, readList_word holen, hotherwise]
  | .emit value check =>
    simp only [isSizedStmt, Bool.and_eq_true, decide_eq_true_eq] at h
    obtain ⟨hv, hc⟩ := h
    simp [stmt, readStmt, readVariant_variant, readSlot_slot hv, readEmitCheck_emitCheck hc]
  | .emitDefault value =>
    simp [stmt, readStmt, readVariant_variant, readFallback_fallback h]
  | .capture sink parent body =>
    simp only [isSizedStmt, Bool.and_eq_true, decide_eq_true_eq] at h
    obtain ⟨⟨⟨hs, hp⟩, hlen⟩, hb⟩ := h
    simp only [stmt, List.length_append, length_variant] at hl
    have hbody := readMany_stmts body hb levels (by omega)
    simp [stmt, readStmt, readVariant_variant, readSlot_slot hs, readSlot_slot hp,
      readList_word hlen, hbody]
  | .firstNonEmpty sink parent alternatives otherwise =>
    simp only [isSizedStmt, Bool.and_eq_true, decide_eq_true_eq] at h
    obtain ⟨⟨⟨⟨⟨hs, hp⟩, halen⟩, ha⟩, holen⟩, ho⟩ := h
    simp only [stmt, List.length_append, length_variant] at hl
    have halternatives := readMany_blocks alternatives ha levels (by omega)
    have hotherwise := readMany_stmts otherwise ho levels (by omega)
    simp [stmt, readStmt, readVariant_variant, readSlot_slot hs, readSlot_slot hp,
      readList_word halen, halternatives, readList_word holen, hotherwise]

theorem readMany_stmts (body : List Stmt) (h : allSizedStmts body) (levels : Nat)
    (hl : (stmts body).length ≤ levels) (rest : List UInt8) :
    readMany (readStmt levels) body.length (stmts body ++ rest) = some (body, rest) := by
  match body with
  | [] => rfl
  | st :: more =>
    simp only [allSizedStmts, Bool.and_eq_true] at h
    simp only [stmts, List.length_append] at hl
    have hst := readStmt_stmt st h.1 levels (by omega)
    have hmore := readMany_stmts more h.2 levels (by omega)
    simp [stmts, readMany, hst, hmore]

theorem readMany_blocks (bodies : List (List Stmt)) (h : allSizedBlocks bodies) (levels : Nat)
    (hl : (blocks bodies).length ≤ levels) (rest : List UInt8) :
    readMany (readList (readStmt levels)) bodies.length (blocks bodies ++ rest) =
      some (bodies, rest) := by
  match bodies with
  | [] => rfl
  | body :: more =>
    simp only [allSizedBlocks, Bool.and_eq_true, decide_eq_true_eq] at h
    simp only [blocks, List.length_append] at hl
    have hbody := readMany_stmts body h.1.2 levels (by omega)
    have hmore := readMany_blocks more h.2 levels (by omega)
    simp [blocks, readMany, readList_word h.1.1, hbody, hmore]

end

/-- A routine whose texts, lists and numbers fit their places in the packed form. -/
def isSizedRoutine (r : Routine) : Bool :=
  isSizedText r.name && isSizedText r.input && isSizedText r.sink && r.temps.length < 2 ^ 64 &&
    r.temps.all isSizedText && r.body.length < 2 ^ 64 && allSizedStmts r.body

theorem readRoutine_routine {r : Routine} (h : isSizedRoutine r) (rest : List UInt8) :
    readRoutine (routine r ++ rest) = some (r, rest) := by
  simp only [isSizedRoutine, Bool.and_eq_true, decide_eq_true_eq,
    List.all_eq_true] at h
  obtain ⟨⟨⟨⟨⟨⟨hname, hinput⟩, hsink⟩, htlen⟩, htemps⟩, hblen⟩, hbody⟩ := h
  have htemps' := readList_list htlen fun t ht => readString_string (htemps t ht)
  have hbody' := readMany_stmts r.body hbody (routine r ++ rest).length
    (by simp only [routine, List.length_append]; omega)
  simp only [readRoutine]
  generalize (routine r ++ rest).length = levels at hbody'
  simp [routine, readString_string hname, readString_string hinput, readString_string hsink,
    htemps', readList_word hblen, hbody']

end Packed

end PathTemplate
