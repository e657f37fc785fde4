/-
The five functions close what they open, but for one of them.

Four of them leave depth and indentation as they were, whatever the fields
are. `generate_struct_writer_to_buffer` asks `if (w->__isset_f == 1) {`
before a field that is optional and again behind it, where the writer to a
stream has the closing brace: each such field leaves two braces open, and
the generator two levels further in, for the rest of its output.
-/
import Sandesh.CText.Proofs.Fields

namespace Sandesh.CText

open Lib Nesting

variable {j i : Nat} {error_ret : Int} {a : Args} {f : Field}

-- =========================================================== the fields

/-- Field after field, each closed in itself. -/
theorem emits_eachField {fields : List Field} {body : Field → Gen Unit}
    (h : ∀ f ∈ fields, f.auto_generated = false → Closed (body f)) :
    Closed (eachField fields body) := by
  refine emits_forM fun f hf => ?_
  cases hauto : f.auto_generated with
  | true => exact emits_pure ()
  | false => exact h f hf hauto

/-- The brace that ends a function. -/
theorem emits_endFunction : Emits (j + 1) (i + 1) j i endFunction := by
  refine emits_then emits_indent_down ?_
  exact emits_then (emits_line rfl) emits_endl

/-- The line that declares a function, and the one in front of it. -/
theorem closed_declared {c : Prop} [Decidable c] {first second : List Tok}
    (hfirst : walk Tok.side 0 first = some 0) (hsecond : walk Tok.side 0 second = some 0) :
    Closed (onlyIf c do line first; outLine second) :=
  closed_onlyIf (emits_then (emits_line hfirst) (emits_outLine hsecond))

/-- The parts of the functions, each closed: it ends at the indentation it
began at, and its braces match. -/
theorem closed_returnAndCount : Closed (returnAndCount error_ret) :=
  emits_then (emits_line rfl) (emits_line rfl)

/-- Lines with matching braces. -/
theorem closed_lines {lines : List (List Tok)}
    (h : (lines.all fun ts => walk Tok.side 0 ts = some 0) = true) :
    Closed (lines.forM line) := by
  refine emits_forM fun ts hts => emits_line ?_
  exact of_decide_eq_true (List.all_eq_true.mp h ts hts)

-- ============================================================== deleter

theorem closed_freeBlock {fvname : Word} {lines : List (List Tok)}
    (h : (lines.all fun ts => walk Tok.side 0 ts = some 0) = true) :
    Closed (freeBlock fvname lines) := by
  refine emits_then (emits_line rfl) ?_
  refine emits_then emits_indent_up ?_
  refine emits_closed (closed_lines h) ?_
  exact emits_scope_down

theorem closed_freeField {fvname : Word} {type : Ty} : Closed (freeField fvname type) := by
  unfold freeField
  split <;> first | exact closed_freeBlock rfl | exact emits_pure ()

/-- The deleter, whatever the fields are. -/
theorem closed_deleter : Closed (generate_struct_deleter a) := by
  refine emits_closed (closed_declared rfl rfl) ?_
  refine emits_then (emits_line rfl) ?_
  refine emits_then emits_indent_up ?_
  refine emits_closed (closed_onlyIf (emits_then (emits_line rfl) emits_endl)) ?_
  refine emits_then (emits_line rfl) ?_
  refine emits_then (emits_line rfl) ?_
  refine emits_closed (emits_eachField fun f _ _ => closed_freeField) ?_
  exact emits_endFunction

-- =============================================================== writer

/-- Every field that is not ignored has a type that is supported. -/
def Args.Supported (a : Args) : Prop :=
  ∀ f ∈ a.fields, f.auto_generated = false → f.type.supported = true

/-- The levels that an optional field is written at. -/
def Field.levels (f : Field) : Nat := if f.req = .T_OPTIONAL then 1 else 0

/-- An optional field opens a level in front. -/
theorem emits_opens {wname : Word} :
    Emits j i (j + f.levels) (i + f.levels)
      (onlyIf (f.req = .T_OPTIONAL) (ifIsset wname f)) := by
  unfold onlyIf Field.levels
  split
  · exact emits_then (emits_line rfl) emits_indent_up
  · exact emits_pure ()

/-- And closes it behind. -/
theorem emits_closes :
    Emits (j + f.levels) (i + f.levels) j i
      (onlyIf (f.req = .T_OPTIONAL) do indent_down; line [.closing]) := by
  unfold onlyIf Field.levels
  split
  · exact emits_then emits_indent_down (emits_line rfl)
  · exact emits_pure ()

/-- So a field of the writer is closed. -/
theorem closed_writeField {wname : Word} (h : f.type.supported = true) :
    Closed (writeField wname error_ret f) := by
  obtain ⟨tenum, htenum⟩ := exists_type_to_enum h
  refine emits_then emits_opens ?_
  refine emits_lift htenum ?_
  refine emits_then (emits_line rfl) ?_
  refine emits_closed closed_returnAndCount ?_
  refine emits_closed (closed_serialize_field h _) ?_
  refine emits_then (emits_line rfl) ?_
  refine emits_then (emits_line rfl) ?_
  refine emits_closed closed_returnAndCount ?_
  exact emits_closes

/-- The writer. -/
theorem closed_writer (h : a.Supported) : Closed (generate_struct_writer a) := by
  refine emits_closed (closed_declared rfl rfl) ?_
  refine emits_then (emits_line rfl) ?_
  refine emits_then emits_indent_up ?_
  refine emits_then (emits_line rfl) ?_
  refine emits_then (emits_line rfl) ?_
  refine emits_then (emits_line rfl) ?_
  refine emits_then emits_endl ?_
  refine emits_closed (closed_onlyIf (emits_then (emits_line rfl) emits_endl)) ?_
  refine emits_then (emits_line rfl) ?_
  refine emits_then (emits_line rfl) ?_
  refine emits_then (emits_line rfl) ?_
  refine emits_then emits_endl ?_
  -- the begin, the fields and the end
  refine emits_then (emits_line rfl) ?_
  refine emits_closed closed_returnAndCount ?_
  refine emits_closed (emits_eachField fun f hf hauto => closed_writeField (h f hf hauto)) ?_
  refine emits_then (emits_line rfl) ?_
  refine emits_closed closed_returnAndCount ?_
  refine emits_then (emits_line rfl) ?_
  refine emits_closed closed_returnAndCount ?_
  refine emits_then emits_endl ?_
  refine emits_closed (closed_onlyIf (emits_line rfl)) ?_
  exact emits_endFunction

-- ===================================================== writer to a buffer

/-- The levels that a field leaves open. -/
def Field.left (f : Field) : Nat := if f.auto_generated then 0 else f.levels + f.levels

/-- In the writer to a buffer an optional field opens its level twice, and
closes it nowhere. -/
theorem emits_writeFieldToBuffer {wname : Word} (h : f.type.supported = true) :
    Emits j i (j + f.levels + f.levels) (i + f.levels + f.levels)
      (writeFieldToBuffer wname error_ret f) := by
  obtain ⟨tenum, htenum⟩ := exists_type_to_enum h
  refine emits_then emits_opens ?_
  refine emits_lift htenum ?_
  refine emits_closed closed_field_begin_writer ?_
  refine emits_closed (closed_serialize_field_to_buffer h _) ?_
  refine emits_then (emits_line rfl) ?_
  exact emits_opens

/-- The levels add up over the fields. -/
theorem emits_fields_to_buffer {wname : Word} {fields : List Field}
    (h : ∀ f ∈ fields, f.auto_generated = false → f.type.supported = true) :
    ∀ {j i : Nat}, Emits j i (j + (fields.map Field.left).sum) (i + (fields.map Field.left).sum)
      (eachField fields (writeFieldToBuffer wname error_ret)) := by
  induction fields with
  | nil =>
      intro j i
      exact emits_pure ()
  | cons f fields ih =>
      intro j i
      have hfirst : Emits j i (j + f.left) (i + f.left)
          (if f.auto_generated then pure () else writeFieldToBuffer wname error_ret f) := by
        unfold Field.left
        cases hauto : f.auto_generated with
        | true => exact emits_pure ()
        | false =>
            have hfield : Emits j i (j + f.levels + f.levels) (i + f.levels + f.levels)
                (writeFieldToBuffer wname error_ret f) :=
              emits_writeFieldToBuffer (h f List.mem_cons_self hauto)
            rwa [Nat.add_assoc, Nat.add_assoc] at hfield
      have hrest := ih (fun g hg => h g (List.mem_cons_of_mem f hg)) (j := j + f.left)
        (i := i + f.left)
      rw [Nat.add_assoc, Nat.add_assoc] at hrest
      exact emits_then hfirst hrest

/-- All that is left open in the end. -/
theorem emits_writer_to_buffer (h : a.Supported) :
    Emits 0 0 (a.fields.map Field.left).sum (a.fields.map Field.left).sum
      (generate_struct_writer_to_buffer a) := by
  refine emits_closed (closed_declared rfl rfl) ?_
  refine emits_then (emits_line rfl) ?_
  refine emits_then emits_indent_up ?_
  refine emits_then (emits_line rfl) ?_
  refine emits_then (emits_line rfl) ?_
  refine emits_then (emits_line rfl) ?_
  refine emits_then emits_endl ?_
  refine emits_closed (closed_onlyIf (emits_then (emits_line rfl) emits_endl)) ?_
  refine emits_then (emits_line rfl) ?_
  refine emits_then (emits_line rfl) ?_
  refine emits_then (emits_line rfl) ?_
  refine emits_then (emits_line rfl) ?_
  refine emits_then emits_endl ?_
  refine emits_closed closed_struct_begin_writer ?_
  refine emits_then (emits_fields_to_buffer h) ?_
  refine emits_closed closed_field_stop_writer ?_
  refine emits_closed closed_struct_end_writer ?_
  refine emits_closed (closed_onlyIf (emits_line rfl)) ?_
  rw [Nat.add_comm (0 + 1)]
  exact emits_endFunction

-- =============================================================== reader

/-- The parts of the readers. -/
theorem closed_declareIsset : Closed (declareIsset f) :=
  closed_onlyIf (emits_line rfl)

theorem closed_checkIsset : Closed (checkIsset f) := by
  refine closed_onlyIf ?_
  refine emits_then (emits_line rfl) ?_
  refine emits_then (emits_line rfl) ?_
  refine emits_then (emits_line rfl) ?_
  refine emits_then (emits_line rfl) ?_
  refine emits_then (emits_line rfl) ?_
  refine emits_then (emits_line rfl) ?_
  exact emits_endl

theorem closed_failRead : Closed (failRead error_ret) := by
  refine emits_then (emits_line rfl) ?_
  refine emits_then (emits_line rfl) ?_
  refine emits_then (emits_line rfl) ?_
  refine emits_then (emits_line rfl) ?_
  refine emits_then (emits_line rfl) ?_
  exact emits_then (emits_line rfl) emits_endl

theorem closed_fieldCase {ftype : Word} {read : Gen Unit} {skip : List (List Tok)}
    (h : f.type.supported = true) (hread : Closed read)
    (hskip : (skip.all fun ts => walk Tok.side 0 ts = some 0) = true) :
    Closed (fieldCase ftype read skip f) := by
  obtain ⟨tenum, htenum⟩ := exists_type_to_enum h
  refine emits_then (emits_line rfl) ?_
  refine emits_then emits_indent_up ?_
  refine emits_lift htenum ?_
  refine emits_then (emits_line rfl) ?_
  refine emits_then (emits_line rfl) ?_
  refine emits_then emits_indent_up ?_
  refine emits_closed hread ?_
  refine emits_then emits_indent_down ?_
  -- one brace is closed and one opened in this line
  refine emits_then (emits_line rfl) ?_
  refine emits_closed (closed_lines hskip) ?_
  refine emits_then (emits_line rfl) ?_
  refine emits_then (emits_line rfl) ?_
  exact emits_indent_down

theorem closed_defaultCase {skip : List (List Tok)}
    (hskip : (skip.all fun ts => walk Tok.side 0 ts = some 0) = true) :
    Closed (defaultCase skip) := by
  refine emits_then (emits_line rfl) ?_
  refine emits_closed (closed_lines hskip) ?_
  exact emits_line rfl

/-- The two lines in front of a function that reads. -/
theorem closed_reads {c : Prop} [Decidable c] {first second third : List Tok}
    (hfirst : walk Tok.side 0 first = some 0) (hsecond : walk Tok.side 0 second = some 0)
    (hthird : walk Tok.side 0 third = some 0) :
    Closed (onlyIf c do line first; outLine second; outLine third) := by
  refine closed_onlyIf ?_
  refine emits_then (emits_line hfirst) ?_
  exact emits_then (emits_outLine hsecond) (emits_outLine hthird)

/-- The reader. -/
theorem closed_reader (h : a.Supported) : Closed (generate_struct_reader a) := by
  refine emits_closed (closed_reads rfl rfl rfl) ?_
  refine emits_then (emits_line rfl) ?_
  refine emits_then emits_indent_up ?_
  -- the variables
  refine emits_then (emits_line rfl) ?_
  refine emits_then (emits_line rfl) ?_
  refine emits_then (emits_line rfl) ?_
  refine emits_then (emits_line rfl) ?_
  refine emits_then (emits_line rfl) ?_
  refine emits_then (emits_line rfl) ?_
  refine emits_then (emits_line rfl) ?_
  refine emits_closed (closed_onlyIf (emits_line rfl)) ?_
  refine emits_closed (emits_eachField fun f _ _ => closed_declareIsset) ?_
  refine emits_then (emits_line rfl) ?_
  refine emits_then (emits_line rfl) ?_
  refine emits_then (emits_line rfl) ?_
  refine emits_then (emits_line rfl) ?_
  refine emits_then (emits_line rfl) ?_
  refine emits_then emits_endl ?_
  -- the begin
  refine emits_then (emits_line rfl) ?_
  refine emits_then (emits_line rfl) ?_
  refine emits_closed closed_failRead ?_
  -- the loop, up to the `switch`
  refine emits_then (emits_line rfl) ?_
  refine emits_then (emits_line rfl) ?_
  refine emits_then emits_scope_up ?_
  refine emits_then (emits_line rfl) ?_
  refine emits_then (emits_line rfl) ?_
  refine emits_closed closed_failRead ?_
  refine emits_then (emits_line rfl) ?_
  refine emits_then (emits_line rfl) ?_
  refine emits_then (emits_line rfl) ?_
  refine emits_then (emits_line rfl) ?_
  refine emits_then (emits_line rfl) ?_
  refine emits_then emits_endl ?_
  refine emits_then (emits_line rfl) ?_
  refine emits_then emits_scope_up ?_
  -- the cases
  refine emits_closed (emits_eachField fun f hf hauto => closed_fieldCase (h f hf hauto)
    (closed_deserialize_field (h f hf hauto) _ _ _) rfl) ?_
  refine emits_closed (closed_defaultCase rfl) ?_
  refine emits_then emits_scope_down ?_
  refine emits_then (emits_line rfl) ?_
  refine emits_closed closed_returnAndCount ?_
  refine emits_then emits_scope_down ?_
  refine emits_then emits_endl ?_
  -- the end
  refine emits_then (emits_line rfl) ?_
  refine emits_closed closed_returnAndCount ?_
  refine emits_then emits_endl ?_
  refine emits_closed (emits_eachField fun f _ _ => closed_checkIsset) ?_
  refine emits_closed (closed_onlyIf (emits_line rfl)) ?_
  exact emits_endFunction

/-- The reader from a buffer. -/
theorem closed_reader_from_buffer (h : a.Supported) :
    Closed (generate_struct_reader_from_buffer a) := by
  refine emits_closed (closed_reads rfl rfl rfl) ?_
  refine emits_then (emits_line rfl) ?_
  refine emits_then emits_indent_up ?_
  -- the variables
  refine emits_then (emits_line rfl) ?_
  refine emits_then (emits_line rfl) ?_
  refine emits_then (emits_line rfl) ?_
  refine emits_then (emits_line rfl) ?_
  refine emits_then (emits_line rfl) ?_
  refine emits_then (emits_line rfl) ?_
  refine emits_closed (closed_onlyIf (emits_line rfl)) ?_
  refine emits_closed (emits_eachField fun f _ _ => closed_declareIsset) ?_
  refine emits_then (emits_line rfl) ?_
  refine emits_then (emits_line rfl) ?_
  refine emits_then (emits_line rfl) ?_
  refine emits_then (emits_line rfl) ?_
  refine emits_then (emits_line rfl) ?_
  refine emits_then emits_endl ?_
  -- the begin
  refine emits_then (emits_line rfl) ?_
  refine emits_closed closed_struct_begin_reader ?_
  -- the loop, up to the `switch`
  refine emits_then (emits_line rfl) ?_
  refine emits_then (emits_line rfl) ?_
  refine emits_then emits_scope_up ?_
  refine emits_then (emits_line rfl) ?_
  refine emits_closed closed_field_begin_reader ?_
  refine emits_then emits_endl ?_
  refine emits_then (emits_line rfl) ?_
  refine emits_then emits_scope_up ?_
  -- the cases
  refine emits_closed (emits_eachField fun f hf hauto => closed_fieldCase (h f hf hauto)
    (closed_deserialize_field_from_buffer (h f hf hauto) _ _ _) rfl) ?_
  refine emits_closed (closed_defaultCase rfl) ?_
  refine emits_then emits_scope_down ?_
  refine emits_then (emits_line rfl) ?_
  refine emits_then emits_scope_down ?_
  refine emits_then emits_endl ?_
  -- the end
  refine emits_closed closed_struct_end_reader ?_
  refine emits_closed (emits_eachField fun f _ _ => closed_checkIsset) ?_
  refine emits_closed (closed_onlyIf (emits_line rfl)) ?_
  exact emits_endFunction

-- ============================================================= balance

/-- What the code writes is balanced, and the indentation is as before. -/
def Neat (m : Gen Unit) (s : State) : Prop :=
  ∃ s' text, m s = .ok ((), s') ∧ s'.out = s.out ++ text ∧ Balanced side text
    ∧ s'.indent_ = s.indent_

/-- What is closed is neat from any state. -/
theorem Closed.neat {m : Gen Unit} (h : Closed m) (s : State) : Neat m s := by
  obtain ⟨⟨⟩, s', text, hrun, hout, hwalk, hindent⟩ := h s
  exact ⟨s', text, hrun, hout, balanced_of_walk hwalk, by simpa using hindent⟩

/-- Nothing is left open if no field leaves anything. -/
theorem left_eq_zero (fields : List Field) :
    (fields.map Field.left).sum = 0
      ↔ ∀ f ∈ fields, f.auto_generated = false → f.req ≠ .T_OPTIONAL := by
  have hleft : ∀ f : Field,
      f.left = 0 ↔ (f.auto_generated = false → f.req ≠ .T_OPTIONAL) := by
    intro f
    unfold Field.left Field.levels
    cases f.auto_generated <;> by_cases hreq : f.req = .T_OPTIONAL <;> simp [hreq]
  rw [List.sum_eq_zero_iff_forall_eq_nat]
  simp only [List.mem_map, forall_exists_index, and_imp, forall_apply_eq_imp_iff₂, hleft]

/-- The writer to a buffer is neat exactly if no field leaves a level open.
-/
theorem neat_writer_to_buffer (h : a.Supported) (s : State) :
    Neat (generate_struct_writer_to_buffer a) s ↔ (a.fields.map Field.left).sum = 0 := by
  have hemits := emits_writer_to_buffer h
  constructor
  · intro hex
    obtain ⟨s', text, hrun, -, -, hindent⟩ := hex
    obtain ⟨⟨⟩, s₁, text₁, hrun₁, -, -, hindent₁⟩ := hemits s
    rw [hrun] at hrun₁
    obtain rfl : s' = s₁ := congrArg Prod.snd (Except.ok.inj hrun₁)
    omega
  · intro hzero
    rw [hzero] at hemits
    exact Closed.neat hemits s

/-- The code of all five functions is neat just if no field that is written
is optional. -/
theorem functions_neat_iff (a : Args) (s : State)
    (hsupported : ∀ f ∈ a.fields, f.auto_generated = false → f.type.supported = true) :
    (∀ fn : Function, ∃ s' text, fn.generate a s = .ok ((), s') ∧ s'.out = s.out ++ text
        ∧ Balanced side text ∧ s'.indent_ = s.indent_)
      ↔ ∀ f ∈ a.fields, f.auto_generated = false → f.req ≠ .T_OPTIONAL := by
  rw [← left_eq_zero, ← neat_writer_to_buffer hsupported s]
  constructor
  · intro hall
    exact hall .writer_to_buffer
  · intro hwriter fn
    cases fn with
    | deleter => exact closed_deleter.neat s
    | writer => exact (closed_writer hsupported).neat s
    | writer_to_buffer => exact hwriter
    | reader => exact (closed_reader hsupported).neat s
    | reader_from_buffer => exact (closed_reader_from_buffer hsupported).neat s

/-- `struct point { 1: req i32 x; }`, at the start of a file. -/
def point (req : Req) : Args where
  ns := ⟨w "", w ""⟩
  name := w "point"
  fields := [⟨.base .TYPE_I32 false, w "x", 1, req, false⟩]
  is_sandesh := false
  is_function := true

/-- Nothing emitted. -/
def start : State := ⟨[], 0, 0⟩

/-- The example has types that are supported. -/
theorem point_supported (req : Req) :
    ∀ f ∈ (point req).fields, f.auto_generated = false → f.type.supported = true := by
  intro f hf _
  rw [List.mem_singleton.mp hf]
  rfl

/-- With required fields it is neat. -/
theorem required_point_neat :
    (∀ f ∈ (point .T_REQUIRED).fields, f.auto_generated = false → f.type.supported = true)
      ∧ ∀ fn : Function, ∃ s' text, fn.generate (point .T_REQUIRED) start = .ok ((), s')
        ∧ s'.out = start.out ++ text ∧ Balanced side text ∧ s'.indent_ = start.indent_ := by
  refine ⟨point_supported _, ?_⟩
  refine (functions_neat_iff (point .T_REQUIRED) start (point_supported _)).mpr ?_
  intro f hf _
  rw [List.mem_singleton.mp hf]
  decide

/-- With an optional one it is not. -/
theorem optional_point_not_neat :
    (∀ f ∈ (point .T_OPTIONAL).fields, f.auto_generated = false → f.type.supported = true)
      ∧ ¬ ∀ fn : Function, ∃ s' text, fn.generate (point .T_OPTIONAL) start = .ok ((), s')
        ∧ s'.out = start.out ++ text ∧ Balanced side text ∧ s'.indent_ = start.indent_ := by
  refine ⟨point_supported _, ?_⟩
  intro hall
  have hzero := (neat_writer_to_buffer (point_supported .T_OPTIONAL) start).mp
    (hall .writer_to_buffer)
  exact absurd hzero (by decide)

end Sandesh.CText
