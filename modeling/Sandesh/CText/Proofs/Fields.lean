/-
The code for a field of a type that is supported closes what it opens.

By induction over the type: a typedef is what it stands for, and a list has
the code of its element in a loop of its own.
-/
import Sandesh.CText.Proofs.Buffer

namespace Sandesh.CText

open Lib Nesting

variable {error_ret : Int} {name : Word}

-- ============================================================ what is named

/-- A supported type has a tag. -/
theorem exists_type_to_enum {t : Ty} (h : t.supported = true) :
    ∃ v, type_to_enum t = .ok v := by
  induction t with
  | base b binary => cases b <;> first | exact ⟨_, rfl⟩ | cases h
  | typedef symbolic t ih => exact ih h
  | enum name => exact ⟨_, rfl⟩
  | struct name => exact ⟨_, rfl⟩
  | xception name => exact ⟨_, rfl⟩
  | map cpp_name key val => cases h
  | set cpp_name elem => cases h
  | list cpp_name elem => exact ⟨_, rfl⟩

/-- A supported base type has a name in C. -/
theorem exists_base_type_name {b : Base} {binary : Bool} (h : b.supported binary = true) :
    ∃ v, base_type_name b binary = .ok v := by
  cases b <;> first | exact ⟨_, rfl⟩ | cases h

/-- So has every supported type. -/
theorem exists_type_name (ns : Namespace) {t : Ty} (h : t.supported = true) :
    ∃ v, type_name ns t = .ok v := by
  induction t with
  | base b binary => exact exists_base_type_name h
  | typedef symbolic t ih => exact ⟨_, rfl⟩
  | enum name => exact ⟨_, rfl⟩
  | struct name => exact ⟨_, rfl⟩
  | xception name => exact ⟨_, rfl⟩
  | map cpp_name key val => cases h
  | set cpp_name elem => cases h
  | list cpp_name elem ih =>
      cases cpp_name with
      | some cpp_name => exact ⟨_, rfl⟩
      | none =>
          cases elem with
          | base b binary =>
              obtain ⟨v, hv⟩ := exists_base_type_name h
              exact ⟨v ++ w " *", by rw [type_name, hv]; rfl⟩
          | _ => exact ih h

/-- A supported base type is written, with its parentheses closed. -/
theorem exists_writeCall {b : Base} {binary : Bool} (h : b.supported binary = true) :
    ∃ ts, writeCall b binary name = .ok ts ∧ walk Tok.side 0 ts = some 0 := by
  cases binary <;> cases b <;> first | exact ⟨_, rfl, rfl⟩ | cases h

/-- And read. -/
theorem exists_readCall {b : Base} {binary : Bool} (h : b.supported binary = true) :
    ∃ ts, readCall b binary name = .ok ts ∧ walk Tok.side 0 ts = some 0 := by
  cases binary <;> cases b <;> first | exact ⟨_, rfl, rfl⟩ | cases h

/-- `void` is not supported. -/
theorem ne_void {b : Base} {binary : Bool} (h : b.supported binary = true) :
    b ≠ .TYPE_VOID := by
  rintro rfl
  cases h

-- ============================================================= one value

/-- A call with its test of the result. -/
theorem closed_writeLine {ts : List Tok} (hts : walk Tok.side 0 ts = some 0) :
    Closed (writeLine ts error_ret) := by
  refine emits_then emits_indent ?_
  refine emits_then (emits_out rfl) ?_
  refine emits_then (emits_out hts) ?_
  refine emits_then (emits_out rfl) ?_
  refine emits_then emits_endl ?_
  exact emits_line rfl

/-- A struct, written to the protocol. -/
theorem closed_serialize_struct {sname : Word} :
    Closed (generate_serialize_struct sname name error_ret) := by
  refine emits_then (emits_line rfl) ?_
  refine emits_then (emits_line rfl) ?_
  exact emits_endl

/-- To a stream. -/
theorem closed_serialize_field {t : Ty} (h : t.supported = true) :
    ∀ name, Closed (generate_serialize_field t name error_ret) := by
  induction t with
  | base b binary =>
      intro name
      obtain ⟨ts, hcall, hts⟩ := exists_writeCall h
      cases b with
      | TYPE_VOID => cases h
      | _ => exact emits_lift hcall (closed_writeLine hts)
  | typedef symbolic t ih => exact ih h
  | enum ename =>
      intro name
      exact closed_writeLine rfl
  | struct sname =>
      intro name
      exact closed_serialize_struct
  | xception sname =>
      intro name
      exact closed_serialize_struct
  | map cpp_name key val => cases h
  | set cpp_name elem => cases h
  | list cpp_name elem ih =>
      intro name
      obtain ⟨tenum, htenum⟩ := exists_type_to_enum (t := elem) h
      refine emits_then emits_scope_up ?_
      refine emits_lift htenum ?_
      refine emits_then (emits_line rfl) ?_
      refine emits_then (emits_line rfl) ?_
      refine emits_then (emits_line rfl) ?_
      refine emits_then (emits_line rfl) ?_
      refine emits_then emits_scope_up ?_
      refine emits_closed (ih h _) ?_
      refine emits_then (emits_line rfl) ?_
      refine emits_then emits_scope_down ?_
      refine emits_then (emits_line rfl) ?_
      refine emits_then (emits_line rfl) ?_
      exact emits_scope_down

/-- A struct, written to the buffer. -/
theorem closed_serialize_struct_to_buffer {sname : Word} :
    Closed (generate_serialize_struct_to_buffer sname name error_ret) := by
  refine emits_then (emits_line rfl) ?_
  refine emits_then (emits_line rfl) ?_
  exact emits_line rfl

/-- A base type, written to the buffer. -/
theorem closed_serializeBaseToBuffer {b : Base} {binary : Bool} (h : b.supported binary = true) :
    Closed (serializeBaseToBuffer b binary name error_ret) := by
  cases b with
  | TYPE_BOOL => exact closed_serialize_bool
  | TYPE_BYTE => exact closed_serialize_byte
  | TYPE_I16 => exact closed_serializeShort
  | TYPE_I32 => exact closed_serializeShort
  | TYPE_I64 => exact closed_serializeLong
  | TYPE_U16 => exact closed_serializeShort
  | TYPE_U32 => exact closed_serializeShort
  | TYPE_U64 => exact closed_serializeLong
  | TYPE_DOUBLE =>
      refine emits_then (emits_line rfl) ?_
      exact emits_then (emits_line rfl) (emits_line rfl)
  | TYPE_IPV4 => exact closed_serializeShort
  | TYPE_IPADDR => exact closed_serialize_ipaddr
  | TYPE_STRING =>
      cases binary with
      | true => cases h
      | false => exact closed_serialize_string
  | TYPE_XML => exact closed_serialize_string
  | TYPE_UUID => exact emits_then (emits_line rfl) closed_write_buffer_chk
  | _ => cases h

/-- To a buffer. -/
theorem closed_serialize_field_to_buffer {t : Ty} (h : t.supported = true) :
    ∀ name, Closed (generate_serialize_field_to_buffer t name error_ret) := by
  induction t with
  | base b binary =>
      intro name
      obtain ⟨tenum, htenum⟩ := exists_type_to_enum h
      refine emits_lift htenum ?_
      rw [if_neg (ne_void h)]
      exact closed_serializeBaseToBuffer h
  | typedef symbolic t ih => exact ih h
  | enum ename =>
      intro name
      exact closed_serializeShort
  | struct sname =>
      intro name
      exact closed_serialize_struct_to_buffer
  | xception sname =>
      intro name
      exact closed_serialize_struct_to_buffer
  | map cpp_name key val => cases h
  | set cpp_name elem => cases h
  | list cpp_name elem ih =>
      intro name
      obtain ⟨tenum, htenum⟩ := exists_type_to_enum (t := elem) h
      refine emits_then emits_scope_up ?_
      refine emits_lift htenum ?_
      refine emits_closed closed_list_begin_writer ?_
      refine emits_then (emits_line rfl) ?_
      refine emits_then emits_scope_up ?_
      refine emits_closed (ih h _) ?_
      refine emits_then emits_endl ?_
      refine emits_then emits_scope_down ?_
      refine emits_then (emits_line rfl) ?_
      refine emits_then emits_endl ?_
      exact emits_scope_down

-- ====================================================== a value that is read

variable {ns : Namespace} {req : Req}

/-- The line that sets the flag of an optional field. -/
theorem closed_setIsset {front : Word} : Closed (setIsset req front name) := by
  unfold setIsset
  split
  · exact emits_line rfl
  · split
    · exact emits_line rfl
    · exact emits_pure ()

/-- A struct, read from the protocol. -/
theorem closed_deserialize_struct {sname : Word} :
    Closed (generate_deserialize_struct sname name error_ret) := by
  refine emits_then (emits_line rfl) ?_
  refine emits_then (emits_line rfl) ?_
  refine emits_then (emits_line rfl) ?_
  exact emits_line rfl

/-- From a stream. -/
theorem closed_deserialize_field {t : Ty} (h : t.supported = true) :
    ∀ req front name, Closed (generate_deserialize_field ns t req front name error_ret) := by
  induction t with
  | base b binary =>
      intro req front name
      obtain ⟨ts, hcall, hts⟩ := exists_readCall h
      cases b with
      | TYPE_VOID => cases h
      | _ =>
          refine emits_lift hcall ?_
          refine emits_then emits_indent ?_
          refine emits_then (emits_out rfl) ?_
          refine emits_then (emits_out hts) ?_
          refine emits_then (emits_out rfl) ?_
          refine emits_then emits_endl ?_
          refine emits_then (emits_line rfl) ?_
          refine emits_then (emits_line rfl) ?_
          exact closed_setIsset
  | typedef symbolic t ih => exact ih h
  | enum ename =>
      intro req front name
      refine emits_tmp fun t => ?_
      refine emits_lift rfl ?_
      refine emits_then (emits_line rfl) ?_
      refine emits_then (emits_line rfl) ?_
      refine emits_then (emits_line rfl) ?_
      refine emits_then (emits_line rfl) ?_
      refine emits_then (emits_line rfl) ?_
      exact closed_setIsset
  | struct sname =>
      intro req front name
      exact emits_closed closed_deserialize_struct closed_setIsset
  | xception sname =>
      intro req front name
      exact emits_closed closed_deserialize_struct closed_setIsset
  | map cpp_name key val => cases h
  | set cpp_name elem => cases h
  | list cpp_name elem ih =>
      intro req front name
      obtain ⟨tname, htname⟩ := exists_type_name ns (t := .list cpp_name elem) h
      refine emits_then emits_scope_up ?_
      refine emits_then (emits_line rfl) ?_
      refine emits_then (emits_line rfl) ?_
      refine emits_then (emits_line rfl) ?_
      refine emits_then (emits_line rfl) ?_
      refine emits_then emits_endl ?_
      refine emits_lift htname ?_
      refine emits_then (emits_line rfl) ?_
      refine emits_then (emits_line rfl) ?_
      refine emits_then (emits_line rfl) ?_
      refine emits_then emits_scope_up ?_
      refine emits_closed (ih h _ _ _) ?_
      refine emits_then emits_scope_down ?_
      refine emits_then (emits_line rfl) ?_
      refine emits_then (emits_line rfl) ?_
      refine emits_then (emits_line rfl) ?_
      refine emits_then emits_endl ?_
      refine emits_then emits_scope_down ?_
      exact closed_setIsset

/-- A struct, read from the buffer. -/
theorem closed_deserialize_struct_from_buffer {sname : Word} :
    Closed (generate_deserialize_struct_from_buffer sname name error_ret) := by
  refine emits_then (emits_line rfl) ?_
  refine emits_then (emits_line rfl) ?_
  refine emits_then (emits_line rfl) ?_
  exact emits_line rfl

/-- A base type, read from the buffer. -/
theorem closed_deserializeBaseFromBuffer {b : Base} {binary : Bool}
    (h : b.supported binary = true) :
    Closed (deserializeBaseFromBuffer b binary name error_ret) := by
  cases b with
  | TYPE_BOOL => exact closed_deserialize_bool
  | TYPE_BYTE => exact closed_deserialize_byte
  | TYPE_I16 => exact closed_deserializeShort
  | TYPE_I32 => exact closed_deserializeShort
  | TYPE_I64 => exact closed_deserializeLong
  | TYPE_U16 => exact closed_deserializeShort
  | TYPE_U32 => exact closed_deserializeShort
  | TYPE_U64 => exact closed_deserializeLong
  | TYPE_DOUBLE =>
      refine emits_then (emits_line rfl) ?_
      exact emits_then (emits_line rfl) (emits_line rfl)
  | TYPE_IPV4 => exact closed_deserializeShort
  | TYPE_IPADDR => exact closed_deserialize_ipaddr
  | TYPE_STRING =>
      cases binary with
      | true => cases h
      | false => exact closed_deserialize_string
  | TYPE_XML => exact closed_deserialize_string
  | TYPE_UUID => exact emits_then (emits_line rfl) closed_read_buffer_chk
  | _ => cases h

/-- From a buffer. -/
theorem closed_deserialize_field_from_buffer {t : Ty} (h : t.supported = true) :
    ∀ req front name,
      Closed (generate_deserialize_field_from_buffer ns t req front name error_ret) := by
  induction t with
  | base b binary =>
      intro req front name
      cases b with
      | TYPE_VOID => cases h
      | _ => exact emits_closed (closed_deserializeBaseFromBuffer h) closed_setIsset
  | typedef symbolic t ih => exact ih h
  | enum ename =>
      intro req front name
      exact emits_closed closed_deserializeShort closed_setIsset
  | struct sname =>
      intro req front name
      exact emits_closed closed_deserialize_struct_from_buffer closed_setIsset
  | xception sname =>
      intro req front name
      exact emits_closed closed_deserialize_struct_from_buffer closed_setIsset
  | map cpp_name key val => cases h
  | set cpp_name elem => cases h
  | list cpp_name elem ih =>
      intro req front name
      obtain ⟨tname, htname⟩ := exists_type_name ns (t := .list cpp_name elem) h
      refine emits_then emits_scope_up ?_
      refine emits_closed closed_list_begin_reader ?_
      refine emits_lift htname ?_
      refine emits_then (emits_line rfl) ?_
      refine emits_then (emits_line rfl) ?_
      refine emits_then (emits_line rfl) ?_
      refine emits_then emits_scope_up ?_
      refine emits_closed (ih h _ _ _) ?_
      refine emits_then emits_scope_down ?_
      refine emits_then (emits_line rfl) ?_
      refine emits_then emits_scope_down ?_
      exact closed_setIsset

end Sandesh.CText
