/-
How deep the text is nested, and how far it is indented.

`Emits j i k l m` follows the code `m` of the generator: it returns, what
it writes leads from depth `j` to depth `k`, and the indentation goes from
`i` to `l`, both counted from some level below. The two need not go
together: a `case` is indented and opens nothing. There is one rule for
each way to write, and one for what comes after another; `Closed` is code
that leaves both as they were.
-/
import Sandesh.CText.Structs

namespace Sandesh.CText

open Lib Nesting

variable {α β : Type} {j i k l n o : Nat} {m : Gen α}

-- ============================================================== tokens

/-- The depth behind a piece of a line. -/
def Tok.side : Tok → Option Bool
  | .word _ => none
  | .opening => some true
  | .closing => some false

/-- Words neither open nor close. -/
theorem walk_text (ts : List Tok) :
    ∀ n, walk side n (ts.flatMap Tok.text) = walk Tok.side n ts := by
  induction ts with
  | nil =>
      intro n
      rfl
  | cons t ts ih =>
      intro n
      rw [List.flatMap_cons, walk_append, walk_cons]
      have hfirst : walk side n t.text = enter t.side n := by
        cases t with
        | word v => exact walk_plain v.plain n
        | opening => rfl
        | closing => cases n <;> rfl
      rw [hfirst]
      exact Option.bind_congr fun m _ => ih m

-- =============================================================== emits

/-- From any state the function succeeds; the depth of the braces goes from
`j` to `k` in what it adds to the text, and the indentation by the
difference of `i` and `l`. -/
def Emits (j i k l : Nat) (m : Gen α) : Prop :=
  ∀ s, ∃ a s' text, m s = .ok (a, s') ∧ s'.out = s.out ++ text
    ∧ walk side j text = some k ∧ s'.indent_ + i = s.indent_ + l

/-- Depth and indentation are as before. -/
def Closed (m : Gen α) : Prop := Emits 0 0 0 0 m

/-- Nothing is added. -/
theorem emits_pure (a : α) : Emits j i j i (pure a : Gen α) :=
  fun s => ⟨a, s, [], rfl, (List.append_nil _).symm, rfl, rfl⟩

/-- Texts in a row. -/
theorem emits_bind {g : α → Gen β} (hm : Emits j i k l m) (hg : ∀ a, Emits k l n o (g a)) :
    Emits j i n o (m >>= g) := by
  intro s
  obtain ⟨a, s₁, text₁, hrun₁, hout₁, hwalk₁, hindent₁⟩ := hm s
  obtain ⟨b, s₂, text₂, hrun₂, hout₂, hwalk₂, hindent₂⟩ := hg a s₁
  refine ⟨b, s₂, text₁ ++ text₂, ?_, ?_, walk_trans hwalk₁ hwalk₂, by omega⟩
  · show (m s >>= fun p => g p.1 p.2) = _
    rw [hrun₁]
    exact hrun₂
  · rw [hout₂, hout₁, List.append_assoc]

/-- One after the other. -/
theorem emits_then {m' : Gen β} (hm : Emits j i k l m) (hm' : Emits k l n o m') :
    Emits j i n o (m >>= fun _ => m') :=
  emits_bind hm fun _ => hm'

/-- What code does at some level it does further in. -/
theorem Emits.deeper (h : Emits j i k l m) (d e : Nat) :
    Emits (j + d) (i + e) (k + d) (l + e) m := by
  intro s
  obtain ⟨a, s', text, hrun, hout, hwalk, hindent⟩ := h s
  exact ⟨a, s', text, hrun, hout, walk_deeper d hwalk, by push_cast; omega⟩

/-- What is closed may stand at any depth. -/
theorem Closed.emits (h : Closed m) (j i : Nat) : Emits j i j i m := by
  have hdeeper := Emits.deeper h j i
  rwa [Nat.zero_add, Nat.zero_add] at hdeeper

-- ============================================================= the rules

/-- Tokens that are handed out as they are. -/
theorem emits_out {ts : List Tok} (h : walk Tok.side j ts = some k) :
    Emits j i k i (out ts) :=
  fun _ => ⟨(), _, ts.flatMap Tok.text, rfl, rfl, (walk_text ts j).trans h, rfl⟩

/-- The end of a line. -/
theorem emits_endl : Emits j i j i endl := emits_out rfl

/-- The blanks at the start of a line have no braces. -/
theorem emits_indent : Emits j i j i indent := by
  refine fun s => ⟨(), _, _, rfl, rfl, walk_plain ?_ j, rfl⟩
  intro c hc
  obtain ⟨blank, hblank, hmem⟩ := List.mem_flatten.mp hc
  rw [List.eq_of_mem_replicate hblank] at hmem
  exact (w "  ").plain c hmem

/-- A line with its end. -/
theorem emits_line {ts : List Tok} (h : walk Tok.side j ts = some k) :
    Emits j i k i (line ts) :=
  emits_then emits_indent (emits_then (emits_out h) emits_endl)

/-- A line behind what stands in it already. -/
theorem emits_outLine {ts : List Tok} (h : walk Tok.side j ts = some k) :
    Emits j i k i (outLine ts) :=
  emits_then (emits_out h) emits_endl

/-- One level in. -/
theorem emits_indent_up : Emits j i j (i + 1) indent_up :=
  fun s => ⟨(), _, [], rfl, (List.append_nil _).symm, rfl, by push_cast; omega⟩

/-- One level out. -/
theorem emits_indent_down : Emits j (i + 1) j i indent_down :=
  fun s => ⟨(), _, [], rfl, (List.append_nil _).symm, rfl, by push_cast; omega⟩

/-- A brace, and one level more. -/
theorem emits_scope_up : Emits j i (j + 1) (i + 1) scope_up :=
  emits_then (emits_line rfl) emits_indent_up

/-- One level less, and a brace. -/
theorem emits_scope_down : Emits (j + 1) (i + 1) j i scope_down :=
  emits_then emits_indent_down (emits_line rfl)

/-- A name for a temporary. -/
theorem emits_tmp {name : Word} {g : Word → Gen β} (h : ∀ v, Emits j i k l (g v)) :
    Emits j i k l (tmp name >>= g) := by
  have htmp : Emits j i j i (tmp name) :=
    fun s => ⟨_, _, [], rfl, (List.append_nil _).symm, rfl, rfl⟩
  exact emits_bind htmp h

/-- A part of the generator that does not throw. -/
theorem emits_lift {x : Except Bytes α} {a : α} {g : α → Gen β} (hx : x = .ok a)
    (h : Emits j i k l (g a)) : Emits j i k l (lift x >>= g) := by
  intro s
  obtain ⟨b, s', text, hrun, hrest⟩ := h s
  refine ⟨b, s', text, ?_, hrest⟩
  rw [hx]
  exact hrun

/-- Code that closes what it opens, in the middle of other code. -/
theorem emits_closed {m' : Gen β} (hm : Closed m) (hm' : Emits j i k l m') :
    Emits j i k l (m >>= fun _ => m') :=
  emits_then (hm.emits j i) hm'

/-- Whether or not a part is emitted. -/
theorem closed_onlyIf {c : Prop} [Decidable c] {m : Gen Unit} (h : Closed m) :
    Closed (onlyIf c m) := by
  unfold onlyIf
  split
  · exact h
  · exact emits_pure ()

/-- One after the other. -/
theorem emits_forM {τ : Type} {f : τ → Gen Unit} {ts : List τ}
    (h : ∀ t ∈ ts, Emits j i j i (f t)) : Emits j i j i (ts.forM f) := by
  induction ts with
  | nil => exact emits_pure ()
  | cons t ts ih =>
      exact emits_then (h t List.mem_cons_self)
        (ih fun u hu => h u (List.mem_cons_of_mem t hu))

end Sandesh.CText

/-
The code for one value in a buffer closes what it opens.

Each function is followed line by line with the rules of
the first part, and the functions it calls by what is known of them.
-/

namespace Sandesh.CText

open Lib Nesting

variable {error_ret : Int} {ref : Bool} {name length source dest : Word}

-- =============================================================== buffers

/-- The functions of `t_c_generator` that follow emit text whose braces
match, whatever their arguments are; each is assembled from the ones it
calls. -/
theorem closed_buffer_bounds_chk : Closed (generate_buffer_bounds_chk length error_ret) := by
  refine emits_then (emits_line rfl) ?_
  refine emits_then (emits_line rfl) ?_
  exact emits_line rfl

/-- The line that moves the offset. -/
theorem closed_buffer_incr_offset : Closed (generate_buffer_incr_offset length) :=
  emits_line rfl

/-- A copy into the buffer. -/
theorem closed_write_buffer_memcpy_incr_offset :
    Closed (generate_write_buffer_memcpy_incr_offset source length ref) := by
  have hcopy : Closed (generate_write_buffer_memcpy source length ref) := by
    cases ref <;> exact emits_line rfl
  exact emits_closed hcopy closed_buffer_incr_offset

/-- A copy out of it. -/
theorem closed_read_buffer_memcpy_incr_offset :
    Closed (generate_read_buffer_memcpy_incr_offset dest length ref) := by
  have hcopy : Closed (generate_read_buffer_memcpy dest length ref) := by
    cases ref <;> exact emits_line rfl
  exact emits_closed hcopy closed_buffer_incr_offset

/-- A copy into the buffer, with its test in front. -/
theorem closed_write_buffer_chk :
    Closed (generate_write_buffer_chk_memcpy_incr_offset source length error_ret ref) :=
  emits_closed closed_buffer_bounds_chk closed_write_buffer_memcpy_incr_offset

/-- A copy out of it, with its test in front. -/
theorem closed_read_buffer_chk :
    Closed (generate_read_buffer_chk_memcpy_incr_offset dest length error_ret ref) :=
  emits_closed closed_buffer_bounds_chk closed_read_buffer_memcpy_incr_offset

section Blocks

variable {first second third : List Tok} {m : Gen Unit}

/-- A line, and a block that declares a variable and uses it. -/
theorem closed_block (hfirst : walk Tok.side 0 first = some 0)
    (hsecond : walk Tok.side 1 second = some 1) (hm : Closed m) :
    Closed (do line first; scope_up; line second; m; scope_down) := by
  refine emits_then (emits_line hfirst) ?_
  refine emits_then emits_scope_up ?_
  refine emits_then (emits_line hsecond) ?_
  refine emits_closed hm ?_
  exact emits_scope_down

/-- The same, with a line behind the use. -/
theorem closed_block_line (hfirst : walk Tok.side 0 first = some 0)
    (hsecond : walk Tok.side 1 second = some 1) (hm : Closed m)
    (hthird : walk Tok.side 1 third = some 1) :
    Closed (do line first; scope_up; line second; m; line third; scope_down) := by
  refine emits_then (emits_line hfirst) ?_
  refine emits_then emits_scope_up ?_
  refine emits_then (emits_line hsecond) ?_
  refine emits_closed hm ?_
  refine emits_then (emits_line hthird) ?_
  exact emits_scope_down

/-- A check, and a block that writes a variable. -/
theorem emits_written {v : Word} {j i k l : Nat} {rest : Gen Unit}
    (hfirst : walk Tok.side (j + 1) first = some (j + 1)) (hrest : Emits j i k l rest) :
    Emits j i k l (do
      scope_up
      line first
      generate_write_buffer_memcpy_incr_offset v length ref
      scope_down
      rest) := by
  refine emits_then emits_scope_up ?_
  refine emits_then (emits_line hfirst) ?_
  refine emits_closed closed_write_buffer_memcpy_incr_offset ?_
  exact emits_then emits_scope_down hrest

end Blocks

/-- The scope of the length is closed before the bytes are copied. -/
theorem closed_write_buffer_binary {buf buf_len : Word} :
    Closed (generate_write_buffer_binary buf buf_len error_ret) := by
  refine emits_tmp fun nbuf_len => ?_
  refine emits_closed closed_buffer_bounds_chk ?_
  exact emits_written rfl closed_write_buffer_chk

-- ============================================================ base types

/-- A byte, written. -/
theorem closed_serialize_byte : Closed (generate_serialize_byte_to_buffer name error_ret) :=
  emits_then (emits_line rfl) closed_write_buffer_chk

/-- A byte, read. -/
theorem closed_deserialize_byte :
    Closed (generate_deserialize_byte_from_buffer name error_ret) :=
  closed_block_line rfl rfl closed_read_buffer_chk rfl

/-- A bool, written. -/
theorem closed_serialize_bool : Closed (generate_serialize_bool_to_buffer name error_ret) :=
  emits_tmp fun _ => closed_block rfl rfl closed_serialize_byte

/-- A bool, read. -/
theorem closed_deserialize_bool :
    Closed (generate_deserialize_bool_from_buffer name error_ret) :=
  closed_block_line rfl rfl closed_read_buffer_chk rfl

/-- The shared bodies, with any words for types and conversions. -/
theorem closed_serializeShort {temp comment ctype hton : Word} :
    Closed (serializeShort temp comment ctype hton length name error_ret) :=
  emits_tmp fun _ => closed_block rfl rfl closed_write_buffer_chk

/-- The shorter integers, read. -/
theorem closed_deserializeShort {comment array all ntoh : Word} :
    Closed (deserializeShort comment array all ntoh length name error_ret) := by
  refine emits_then (emits_line rfl) ?_
  refine emits_then emits_scope_up ?_
  -- the union
  refine emits_then (emits_line rfl) ?_
  refine emits_then (emits_line rfl) ?_
  refine emits_then (emits_line rfl) ?_
  refine emits_then (emits_line rfl) ?_
  refine emits_closed closed_read_buffer_chk ?_
  refine emits_then (emits_line rfl) ?_
  exact emits_scope_down

/-- The longer ones, written. -/
theorem closed_serializeLong {temp comment ctype : Word} :
    Closed (serializeLong temp comment ctype name error_ret) := by
  refine emits_tmp fun n => ?_
  refine emits_then (emits_line rfl) ?_
  refine emits_then emits_scope_up ?_
  refine emits_then (emits_line rfl) ?_
  refine emits_then (emits_line rfl) ?_
  refine emits_closed closed_write_buffer_chk ?_
  exact emits_scope_down

/-- The longer ones, read. -/
theorem closed_deserializeLong {comment : Word} :
    Closed (deserializeLong comment name error_ret) :=
  closed_block_line rfl rfl closed_read_buffer_chk rfl

/-- A string, written. -/
theorem closed_serialize_string :
    Closed (generate_serialize_string_to_buffer name error_ret) :=
  emits_tmp fun _ => closed_block rfl rfl closed_write_buffer_binary

/-- Both branches are scopes of their own. -/
theorem closed_deserialize_string :
    Closed (generate_deserialize_string_from_buffer name error_ret) := by
  refine emits_tmp fun s_strlen => ?_
  refine emits_then (emits_line rfl) ?_
  refine emits_then emits_scope_up ?_
  refine emits_then (emits_line rfl) ?_
  refine emits_closed closed_deserializeShort ?_
  refine emits_then (emits_line rfl) ?_
  refine emits_then emits_scope_up ?_
  -- the check, and the copy
  refine emits_then (emits_line rfl) ?_
  refine emits_then (emits_line rfl) ?_
  refine emits_then (emits_line rfl) ?_
  refine emits_then (emits_line rfl) ?_
  refine emits_closed closed_read_buffer_memcpy_incr_offset ?_
  refine emits_then (emits_line rfl) ?_
  refine emits_then emits_scope_down ?_
  -- the other case
  refine emits_then (emits_line rfl) ?_
  refine emits_then emits_scope_up ?_
  refine emits_then (emits_line rfl) ?_
  refine emits_then emits_scope_down ?_
  exact emits_scope_down

/-- Three branches, one for each family and one for the rest. -/
theorem closed_serialize_ipaddr :
    Closed (generate_serialize_ipaddr_to_buffer name error_ret) := by
  refine emits_then (emits_line rfl) ?_
  refine emits_then (emits_line rfl) ?_
  refine emits_then emits_scope_up ?_
  refine emits_closed closed_write_buffer_chk ?_
  refine emits_closed closed_write_buffer_chk ?_
  refine emits_then emits_scope_down ?_
  refine emits_then (emits_line rfl) ?_
  refine emits_then emits_scope_up ?_
  refine emits_closed closed_write_buffer_chk ?_
  refine emits_closed closed_write_buffer_chk ?_
  refine emits_then emits_scope_down ?_
  refine emits_then (emits_line rfl) ?_
  refine emits_then emits_scope_up ?_
  refine emits_then (emits_line rfl) ?_
  exact emits_scope_down

/-- An address, read. -/
theorem closed_deserialize_ipaddr :
    Closed (generate_deserialize_ipaddr_from_buffer name error_ret) := by
  refine emits_then (emits_line rfl) ?_
  refine emits_closed closed_deserialize_byte ?_
  refine emits_then (emits_line rfl) ?_
  refine emits_then emits_scope_up ?_
  refine emits_closed closed_read_buffer_chk ?_
  refine emits_then emits_scope_down ?_
  refine emits_then (emits_line rfl) ?_
  refine emits_then emits_scope_up ?_
  refine emits_closed closed_read_buffer_chk ?_
  refine emits_then emits_scope_down ?_
  refine emits_then (emits_line rfl) ?_
  refine emits_then emits_scope_up ?_
  refine emits_then (emits_line rfl) ?_
  exact emits_scope_down

-- ========================================================= around values

variable {is_sandesh : Bool}

/-- A sandesh has a name to write, a structure has nothing. -/
theorem closed_struct_begin_writer :
    Closed (generate_struct_begin_writer_to_buffer name is_sandesh error_ret) := by
  cases is_sandesh with
  | true => exact emits_then (emits_line rfl) closed_write_buffer_binary
  | false => exact emits_line rfl

/-- The start of a struct, read. -/
theorem closed_struct_begin_reader :
    Closed (generate_struct_begin_reader_from_buffer name is_sandesh error_ret) := by
  cases is_sandesh with
  | true =>
      refine emits_then (emits_line rfl) ?_
      refine emits_closed closed_deserialize_string ?_
      exact emits_then (emits_line rfl) emits_endl
  | false => exact emits_line rfl

/-- The end of a struct, written. -/
theorem closed_struct_end_writer : Closed (generate_struct_end_writer_to_buffer is_sandesh) := by
  cases is_sandesh <;> exact emits_line rfl

/-- The end of a struct, read. -/
theorem closed_struct_end_reader :
    Closed (generate_struct_end_reader_from_buffer is_sandesh) := by
  cases is_sandesh <;> exact emits_line rfl

/-- The stop byte. -/
theorem closed_field_stop_writer : Closed (generate_field_stop_writer_to_buffer error_ret) := by
  refine emits_tmp fun field_stop => ?_
  refine emits_then emits_endl ?_
  refine emits_then (emits_line rfl) ?_
  refine emits_closed closed_buffer_bounds_chk ?_
  refine emits_then emits_scope_up ?_
  refine emits_then (emits_line rfl) ?_
  refine emits_closed closed_write_buffer_memcpy_incr_offset ?_
  exact emits_scope_down

/-- Two scopes in a row. -/
theorem closed_field_begin_writer {key field_type : Word} :
    Closed (generate_field_begin_writer_to_buffer key field_type error_ret) := by
  refine emits_then (emits_line rfl) ?_
  refine emits_closed closed_buffer_bounds_chk ?_
  refine emits_tmp fun field_type8 => emits_written rfl ?_
  refine emits_closed closed_buffer_bounds_chk ?_
  exact emits_tmp fun nkey => emits_written rfl emits_endl

/-- The `break` stands between braces without a scope. -/
theorem closed_field_begin_reader {field_type field_id : Word} :
    Closed (generate_field_begin_reader_from_buffer field_type field_id error_ret) := by
  refine emits_then (emits_line rfl) ?_
  refine emits_closed closed_deserialize_byte ?_
  -- the check for the marker
  refine emits_then (emits_line rfl) ?_
  refine emits_then (emits_line rfl) ?_
  refine emits_then (emits_line rfl) ?_
  refine emits_then (emits_line rfl) ?_
  refine emits_then (emits_line rfl) ?_
  refine emits_then (emits_line rfl) ?_
  refine emits_then emits_scope_up ?_
  refine emits_closed closed_deserializeShort ?_
  exact emits_scope_down

/-- The header of a list, written. -/
theorem closed_list_begin_writer {element_type : Word} :
    Closed (generate_list_begin_writer_to_buffer element_type length error_ret) := by
  refine emits_tmp fun element_type8 => ?_
  refine emits_then (emits_line rfl) ?_
  refine emits_closed closed_buffer_bounds_chk ?_
  refine emits_written rfl ?_
  refine emits_tmp fun nelement_size => ?_
  refine emits_closed closed_buffer_bounds_chk ?_
  exact emits_written rfl emits_endl

/-- The header of a list, read. -/
theorem closed_list_begin_reader {element_size : Word} :
    Closed (generate_list_begin_reader_from_buffer element_size error_ret) := by
  refine emits_tmp fun element_type8 => ?_
  refine emits_then (emits_line rfl) ?_
  refine emits_then emits_scope_up ?_
  refine emits_then (emits_line rfl) ?_
  refine emits_closed closed_deserialize_byte ?_
  refine emits_then emits_scope_down ?_
  exact closed_deserializeShort

end Sandesh.CText
