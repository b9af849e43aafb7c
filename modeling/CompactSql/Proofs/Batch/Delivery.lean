import CompactSql.Batch.Sink
import CompactSql.Proofs.Batch.Writes

/-!
# Delivery to limited writers

A run makes its writes in order until one does not fit.  The writer keeps the
part of it that fits, nothing is written behind it, and the verdict gives way to
the fault of the writer.
-/

namespace CompactSql.Batch

/-- How many bytes the writer of a channel holds, if it does not hold all. -/
abbrev Limits := Channel → Option Nat

/-- No channel is sent more than its writer holds. -/
def Fits (limits : Limits) (writes : List Write) : Prop :=
  ∀ channel, ∀ limit ∈ limits channel, (sent channel writes).toUTF8.size ≤ limit

/-- What a writer with this limit still takes of a text behind this one. -/
def fittingPart (limit : Option Nat) (held text : String) : ByteArray :=
  match limit with
  | none => text.toUTF8
  | some limit => text.toUTF8.extract 0 (limit - held.toUTF8.size)

def kept (limits : Limits) (done : List Write) (write : Write)
    (channel : Channel) : ByteArray :=
  (sent channel done).toUTF8 ++
    if write.channel = channel then
      fittingPart (limits channel) (sent channel done) write.text
    else .empty

/-- What becomes of these writes and this verdict under these limits. -/
inductive Delivered (limits : Limits) (writes : List Write)
    (verdict : Except Problem Unit) : Delivery → Prop
  | whole : Fits limits writes →
      Delivered limits writes verdict
        ⟨(sent .out writes).toUTF8, (sent .diagnostics writes).toUTF8, verdict⟩
  | cut {done rest : List Write} {write : Write} :
      writes = done ++ write :: rest → Fits limits done →
      ¬ Fits limits (done ++ [write]) →
      Delivered limits writes verdict
        ⟨kept limits done write .out, kept limits done write .diagnostics,
          .error (.io .writeFailed)⟩

section Step

variable {limits : Limits} {done : List Write} {channel other : Channel}
  {text : String}

def sinkOf (limits : Limits) (done : List Write) (channel : Channel) : Sink :=
  ⟨limits channel, (sent channel done).toUTF8⟩

theorem sent_snoc_other (h : channel ≠ other) :
    sent other (done ++ [⟨channel, text⟩]) = sent other done := by
  have none : sent other [⟨channel, text⟩] = "" := by simp [sent, h, String.join]
  rw [sent_append, none, String.append_empty]

theorem sent_snoc_same :
    (sent channel (done ++ [⟨channel, text⟩])).toUTF8 =
      (sent channel done).toUTF8 ++ text.toUTF8 := by
  have last : sent channel [⟨channel, text⟩] = text := by simp [sent, String.join]
  rw [bytes_append, last]

private theorem sinkOf_snoc_other (h : channel ≠ other) :
    sinkOf limits (done ++ [⟨channel, text⟩]) other = sinkOf limits done other := by
  rw [sinkOf, sent_snoc_other h, sinkOf]

theorem kept_other (h : channel ≠ other) :
    kept limits done ⟨channel, text⟩ other = (sent other done).toUTF8 := by
  rw [kept, if_neg h, ByteArray.append_empty]

theorem room_iff {sink : Sink} {size : Nat} :
    sink.room size = true ↔ ∀ limit ∈ sink.limit, sink.held.size + size ≤ limit := by
  obtain ⟨limit, held⟩ := sink
  cases limit with
  | none => simp [Sink.room]
  | some limit => simp [Sink.room]

private theorem fits_snoc (h : Fits limits done) :
    Fits limits (done ++ [⟨channel, text⟩]) ↔
      (sinkOf limits done channel).room text.toUTF8.size = true := by
  rw [room_iff]
  constructor
  · intro fits limit mem
    have bound := fits channel limit mem
    rwa [sent_snoc_same, ByteArray.size_append] at bound
  · intro room other limit mem
    by_cases same : channel = other
    · subst same
      rw [sent_snoc_same, ByteArray.size_append]
      exact room limit mem
    · rw [sent_snoc_other same]
      exact h other limit mem

theorem extract_whole {bytes : ByteArray} {stop : Nat} (h : bytes.size ≤ stop) :
    bytes.extract 0 stop = bytes := by
  rw [← Nat.max_eq_left h]
  exact ByteArray.extract_zero_max_size

private theorem put_of_room
    (room : (sinkOf limits done channel).room text.toUTF8.size = true) :
    (sinkOf limits done channel).put text.toUTF8 =
      sinkOf limits (done ++ [⟨channel, text⟩]) channel := by
  have bound := room_iff.mp room
  simp only [sinkOf, Sink.put, sent_snoc_same] at bound ⊢
  cases limit : limits channel with
  | none => rfl
  | some size =>
      have small := bound size limit
      rw [← ByteArray.size_append] at small
      simp only [extract_whole small]

private theorem put_held (h : Fits limits done) :
    ((sinkOf limits done channel).put text.toUTF8).held =
      kept limits done ⟨channel, text⟩ channel := by
  have bound := h channel
  rw [kept, if_pos rfl, Sink.put, sinkOf]
  cases limit : limits channel with
  | none => rfl
  | some size =>
      have small := bound size limit
      simp only [fittingPart]
      rw [ByteArray.extract_append, Nat.zero_sub, extract_whole small]

theorem deliver_write (verdict : Except Problem Unit) (fits : Fits limits done)
    {effect : Effect} {write : Write} (h : effect.write? = some write)
    (effects : List Effect) :
    deliver verdict (sinkOf limits done .out) (sinkOf limits done .diagnostics)
        (effect :: effects) =
      if (sinkOf limits done write.channel).room write.text.toUTF8.size then
        deliver verdict (sinkOf limits (done ++ [write]) .out)
          (sinkOf limits (done ++ [write]) .diagnostics) effects
      else
        ⟨kept limits done write .out, kept limits done write .diagnostics,
          .error (.io .writeFailed)⟩ := by
  cases effect with
  | log event => cases h
  | out text =>
      cases h
      have apart : Channel.out ≠ .diagnostics := by decide
      rw [deliver, sinkOf_snoc_other apart, kept_other apart, ← put_held fits]
      split
      next room => rw [put_of_room room]
      next => rfl
  | diagnostic text =>
      cases h
      have apart : Channel.diagnostics ≠ .out := by decide
      rw [deliver, sinkOf_snoc_other apart, kept_other apart, ← put_held fits]
      split
      next room => rw [put_of_room room]
      next => rfl

end Step

/-! ## All writes -/

theorem deliver_delivered {limits : Limits} (verdict : Except Problem Unit)
    {done : List Write} (fits : Fits limits done) (effects : List Effect) :
    Delivered limits (done ++ writesOf effects) verdict
      (deliver verdict (sinkOf limits done .out)
        (sinkOf limits done .diagnostics) effects) := by
  induction effects generalizing done with
  | nil =>
      rw [writesOf, List.filterMap_nil, List.append_nil]
      exact .whole fits
  | cons effect effects ih =>
      cases made : effect.write? with
      | none =>
          cases effect with
          | log event => exact ih fits
          | out text => cases made
          | diagnostic text => cases made
      | some write =>
          have writes : writesOf (effect :: effects) = write :: writesOf effects :=
            List.filterMap_cons_some made
          rw [deliver_write verdict fits made, writes]
          split
          next room =>
            have next := ih ((fits_snoc fits).mpr room)
            rwa [List.append_assoc] at next
          next full => exact .cut rfl fits fun next => full ((fits_snoc fits).mp next)

theorem fits_nil (limits : Limits) : Fits limits [] := by
  intro channel limit _
  exact Nat.zero_le limit

private theorem fits_unlimited (writes : List Write) : Fits (fun _ => none) writes := by
  intro channel limit mem
  cases mem

theorem Fits.of_append {limits : Limits} {first second : List Write}
    (h : Fits limits (first ++ second)) : Fits limits first := by
  intro channel limit mem
  have bound := h channel limit mem
  rw [bytes_append, ByteArray.size_append] at bound
  omega

theorem Report.delivered (report : Report) (limits : Limits) :
    Delivered limits (writesOf report.effects) report.verdict
      (report.deliver (limits .out) (limits .diagnostics)) :=
  deliver_delivered report.verdict (fits_nil limits) report.effects

theorem Delivered.eq_whole {limits : Limits} {writes : List Write}
    {verdict : Except Problem Unit} {delivery : Delivery}
    (h : Delivered limits writes verdict delivery) (fits : Fits limits writes) :
    delivery =
      ⟨(sent .out writes).toUTF8, (sent .diagnostics writes).toUTF8, verdict⟩ := by
  cases h with
  | whole => rfl
  | @cut done rest write split _ full =>
      rw [split, List.append_cons] at fits
      exact absurd fits.of_append full

theorem Report.deliver_unlimited (report : Report) :
    report.deliver none none =
      ⟨(sent .out (writesOf report.effects)).toUTF8,
        (sent .diagnostics (writesOf report.effects)).toUTF8, report.verdict⟩ :=
  (report.delivered fun _ => none).eq_whole (fits_unlimited _)

def Delivery.held (delivery : Delivery) : Channel → ByteArray
  | .out => delivery.out
  | .diagnostics => delivery.diagnostics

def BeginsWith (whole first : ByteArray) : Prop := ∃ more, whole = first ++ more

theorem BeginsWith.refl (bytes : ByteArray) : BeginsWith bytes bytes :=
  ⟨.empty, ByteArray.append_empty.symm⟩

private theorem fittingPart_begins (limit : Option Nat) (held text : String) :
    BeginsWith text.toUTF8 (fittingPart limit held text) := by
  cases limit with
  | none => exact .refl text.toUTF8
  | some limit =>
      refine ⟨text.toUTF8.extract (limit - held.toUTF8.size) text.toUTF8.size, ?_⟩
      rw [fittingPart, ByteArray.extract_append_extract, Nat.zero_min,
        ByteArray.extract_zero_max_size]

private theorem kept_begins (limits : Limits) (done rest : List Write) (write : Write)
    (channel : Channel) :
    BeginsWith (sent channel (done ++ write :: rest)).toUTF8
      (kept limits done write channel) := by
  have split : (sent channel (done ++ write :: rest)).toUTF8 =
      (sent channel (done ++ [write])).toUTF8 ++ (sent channel rest).toUTF8 := by
    rw [List.append_cons, bytes_append]
  by_cases same : write.channel = channel
  · subst same
    obtain ⟨more, part⟩ :=
      fittingPart_begins (limits write.channel) (sent write.channel done) write.text
    refine ⟨more ++ (sent write.channel rest).toUTF8, ?_⟩
    rw [split, sent_snoc_same, part, kept, if_pos rfl]
    simp only [ByteArray.append_assoc]
  · refine ⟨(sent channel rest).toUTF8, ?_⟩
    rw [split, sent_snoc_other same, kept_other same]

private theorem Delivered.begins {limits : Limits} {writes : List Write}
    {verdict : Except Problem Unit} {delivery : Delivery}
    (h : Delivered limits writes verdict delivery) (channel : Channel) :
    BeginsWith (sent channel writes).toUTF8 (delivery.held channel) := by
  cases h with
  | whole =>
      cases channel with
      | out => exact .refl _
      | diagnostics => exact .refl _
  | @cut done rest write split =>
      rw [split]
      cases channel with
      | out => exact kept_begins limits done rest write .out
      | diagnostics => exact kept_begins limits done rest write .diagnostics

/-! ## Runs -/

/-- A run that cannot read its source writes nothing.  Any other run makes the
writes of its chunks in order as far as they fit: all of them, with the verdict on
the chunks, or those up to the first that does not fit and the part of it that does,
with the fault of its writer whatever was rejected before.  Either way both outputs
begin those of the run without limits. -/
theorem run_limited (options : Options) (source : Source)
    (content : Except IoFault ByteArray) (limits : Limits) :
    IoFault.writeFailed.text = "failed to write whole buffer" ∧
    (∀ fault, source.Unreadable content fault →
      (run options source content).deliver (limits .out) (limits .diagnostics) =
        ⟨.empty, .empty, .error (.io fault)⟩) ∧
    ∀ text, source.text content = .ok text →
      let chunks := Chunk.ofText options.eachLine text
      let writes := chunks.flatMap (Chunk.writes options)
      let unlimited := (run options source content).deliver none none
      let limited :=
        (run options source content).deliver (limits .out) (limits .diagnostics)
      unlimited = ⟨(sent .out writes).toUTF8, (sent .diagnostics writes).toUTF8,
        verdictOn options chunks⟩ ∧
      Delivered limits writes unlimited.verdict limited ∧
      (Fits limits writes → limited = unlimited) ∧
      ∀ channel, BeginsWith (unlimited.held channel) (limited.held channel) := by
  refine ⟨rfl, ?_, ?_⟩
  · intro fault unreadable
    obtain ⟨quiet, verdict⟩ := run_of_unreadable options unreadable
    have delivered := (run options source content).delivered limits
    rw [quiet, verdict] at delivered
    exact delivered.eq_whole (fits_nil limits)
  · intro text readable chunks writes unlimited limited
    obtain ⟨made, verdict⟩ := run_of_text options readable
    -- without a limit every write fits, so all of the text arrives
    have all : unlimited = ⟨(sent .out writes).toUTF8,
        (sent .diagnostics writes).toUTF8, verdictOn options chunks⟩ := by
      have plain := (run options source content).deliver_unlimited
      rwa [made, verdict] at plain
    have delivered : Delivered limits writes unlimited.verdict limited := by
      have delivered := (run options source content).delivered limits
      rw [made, verdict] at delivered
      rwa [all]
    refine ⟨all, delivered, ?_, ?_⟩
    · intro fits
      rw [delivered.eq_whole fits, all]
    · intro channel
      have begins := delivered.begins channel
      rw [all]
      cases channel with
      | out => exact begins
      | diagnostics => exact begins

def shortOutput : Limits
  | .out => some 20
  | .diagnostics => none

def threeLines : String := "delete from a\nselect\ndelete from b\n"

/-- The second line is rejected, and the text for the third does not fit. -/
theorem run_limited_third_line :
    (run ⟨.sql, false, true⟩ (.file "absent") (.error .fileNotFound)).deliver
        (shortOutput .out) (shortOutput .diagnostics) =
      ⟨.empty, .empty, .error (.io .fileNotFound)⟩ ∧
    let limited := (run ⟨.sql, false, true⟩ (.inline threeLines) (.ok .empty)).deliver
      (shortOutput .out) (shortOutput .diagnostics)
    Delivered shortOutput
        ((Chunk.ofText true threeLines).flatMap (Chunk.writes ⟨.sql, false, true⟩))
        (.error (.rejected 1 3)) limited ∧
      limited.out = "DELETE FROM a\nDELETE".toUTF8 ∧
      limited.verdict = .error (.io .writeFailed) := by
  have law (source : Source) (content : Except IoFault ByteArray) :=
    run_limited ⟨.sql, false, true⟩ source content shortOutput
  refine ⟨?_, ?_, by decide +kernel, by decide +kernel⟩
  · apply (law (.file "absent") (.error .fileNotFound)).2.1
    exact ⟨by simp, .inl rfl⟩
  · obtain ⟨all, delivered, -, -⟩ :=
      (law (.inline threeLines) (.ok .empty)).2.2 threeLines rfl
    have verdict : verdictOn ⟨.sql, false, true⟩ (Chunk.ofText true threeLines) =
        .error (.rejected 1 3) := by decide +kernel
    simp only [all] at delivered
    rw [verdict] at delivered
    exact delivered

end CompactSql.Batch
