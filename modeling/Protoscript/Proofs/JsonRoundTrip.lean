import Mathlib
import Protoscript.Proofs.Assignment
import Protoscript.Proofs.JsonMessages
import Protoscript.Proofs.Observation
import Protoscript.Proofs.Packing

/-!
# JSON through the library

A message is written as JSON by one function of the library and read again by another one. What comes
back equals the message, the edits of its views included, if the message is plain, nests no deeper than
JSON is read, and reads as no NaN.

* `Heap.writeJson`, `Heap.readJson` — the calls;
* `Message.Plain.exists_json` — a plain message has a JSON form, whose two texts are read as an equal
  message;
* `Heap.JsonRoundTrips` — a message is written and read again as an equal one;
* `Heap.Reachable.jsonRoundTrips` — so are all plain messages.
-/

namespace Protoscript

/-! ## Texts -/

/-- The JSON text of a tree, on one line or indented. -/
def Json.layout (compact : Bool) (indent : Nat) (j : Json) : String :=
  if compact then j.compact else j.pretty indent

theorem Json.ofText?_layout (compact : Bool) (indent : Nat) {j : Json} (hj : j.Legible)
    (h : j.nesting ≤ jsonDepth) : ofText? (j.layout compact indent) = some j.reread := by
  unfold layout
  split
  · exact ofText?_compact hj h
  · exact ofText?_pretty indent hj h

/-- Whether the JSON form of a message nests no deeper than JSON is read. -/
def Message.JsonFits (m : Message) : Prop := ∀ j, m.toJson? = some j → j.nesting ≤ jsonDepth

/-- **A plain message has a JSON form**, and both texts of it are read as a message that equals it. -/
theorem Message.Plain.exists_json {p : Pool} (hbuilt : p.Built) (hwrappers : p.DeclaresWrappers)
    {d : MessageDescriptor} (hd : d.Among {p}) {m : Message} (hm : d.Takes m) (hplain : m.Plain)
    (hfree : m.NanFree) (hfits : m.JsonFits) :
    ∃ j n, m.toJson? = some j ∧
      (∀ compact indent, Json.ofText? (j.layout compact indent) = some j.reread) ∧
      Message.ofJson? d j.reread = some n ∧ d.Takes n ∧ m.equals n = true ∧ n.equals m = true := by
  have htracks : p.TracksPresence := by
    obtain ⟨id, builders, -, hfiles⟩ := hbuilt
    exact Pool.tracksPresence_ofFiles hfiles
  have hback : m.BackFromJson m.formDepth :=
    hplain.backFromJson hbuilt.namesJson hwrappers (hm.descriptor.symm ▸ hd) hm.conforms
  obtain ⟨j, n, hj, hlegible, hread, halike⟩ := hback
  rw [hm.descriptor] at hread
  have hn : d.Takes n := takes_ofJson? hread
  have hequal := halike.equals htracks hd hm hn hfree
  exact ⟨j, n, hj,
    fun compact indent => Json.ofText?_layout compact indent hlegible (hfits j hj),
    hread, hn, hequal, equals_symm htracks hd hm hn hequal⟩

/-! ## Calls -/

namespace Heap

/-- Writes a message as JSON, on one line or indented. -/
def writeJson (library : Library) (r : Ref .message) (compact : Bool) : Operation Value :=
  .call (.callable (.function library .encodeJson)) [.message r] [("compact", .bool compact)]

/-- Reads a message of a type from a JSON text. -/
def readJson (library : Library) (t : MessageType) (s : String) : Operation Value :=
  .call (.callable (.function library .decodeJson)) [.messageType t, .text s] []

variable {pools : Set Pool} {p : Pool} {h : Heap} {library : Library} {r : Ref .message} {m : Message}

/-- A message with a JSON form is written in the layout of its settings, and nothing is changed. -/
theorem run_writeJson (hm : h.contents r = .ok m) {j : Json} (hj : m.toJson? = some j) (compact : Bool) :
    (writeJson library r compact).run h =
      (.ok (.text (j.layout compact (h.cell r).config.jsonIndent)), h) := by
  have hrun : (writeJson library r compact).run h = Script.run (Script.encodeJson r compact) h := rfl
  have htree : (Script.jsonOf m).run h = (.ok j, h) := by
    unfold Script.jsonOf
    rw [hj]
    rfl
  rw [hrun]
  unfold Script.encodeJson Json.layout
  simp only [Script.run_bind, Script.contents, Script.run_reading, hm, htree]
  split <;> rfl

/-- A message that cannot be flushed is not written. -/
theorem run_writeJson_error {e : Error} (hm : h.contents r = .error e) (compact : Bool) :
    (writeJson library r compact).run h = (.error e, h) := by
  have hrun : (writeJson library r compact).run h = Script.run (Script.encodeJson r compact) h := rfl
  rw [hrun]
  unfold Script.encodeJson
  simp only [Script.run_bind, Script.contents, Script.run_reading, hm]

/-- A text is read as a new message, if it is one in JSON. -/
theorem run_readJson {t : MessageType} {s : String} {j : Json} (hs : Json.ofText? s = some j)
    (hj : Message.ofJson? t.descriptor j = some m) :
    (readJson library t s).run h =
      (.ok (.message (h.fresh .message)), h.alloc .message { content := m, config := t.config }) := by
  have hrun : (readJson library t s).run h = Script.run (Script.decodeJson t s) h := rfl
  rw [hrun]
  unfold Script.decodeJson Script.messageOfJson
  rw [hs]
  dsimp only
  rw [hj]
  rfl

/-- Whether a message is written as a JSON text, which is read, with any settings, as a new message of
its type, and that equals the message, whichever of the two is asked. -/
def JsonRoundTrips (h : Heap) (library : Library) (r : Ref .message) (compact : Bool) : Prop :=
  ∃ s, (writeJson library r compact).run h = (.ok (.text s), h) ∧
    ∀ t : MessageType, t.descriptor = (h.cell r).content.descriptor → ∃ back h',
      (readJson library t s).run h = (.ok (.message back), h') ∧
      (h'.cell back).content.descriptor = t.descriptor ∧
      h'.equals (.message r) (.message back) = .ok true ∧ h'.equals (.message back) (.message r) = .ok true

/-- **Plain messages are written as JSON and read again**, in both layouts and with any settings, edits
that are pending in their views included. -/
theorem Reachable.jsonRoundTrips {S : Set Place} (hh : Reachable pools h) (hS : h.TypedOn p S)
    (hbuilt : p.Built) (hkeys : p.PlainKeys) (hwrappers : p.DeclaresWrappers) (hr : ⟨.message, r⟩ ∈ S) :
    ∃ m, h.contents r = .ok m ∧ (m.Plain → m.NanFree → m.JsonFits →
      ∀ library compact, h.JsonRoundTrips library r compact) := by
  obtain ⟨m, hm⟩ := hS.contents_ok hh.forest hkeys hr
  refine ⟨m, hm, fun hplain hfree hfits library compact => ?_⟩
  have htakes := hS.contents hr hm
  obtain ⟨j, n, hj, htext, hread, hn, hleft, hright⟩ :=
    hplain.exists_json hbuilt hwrappers (hS.message hr).among htakes hfree hfits
  refine ⟨_, run_writeJson hm hj compact, fun t ht => ?_⟩
  let h' := h.alloc .message { content := n, config := t.config }
  have hback : h'.contents (h.fresh .message) = .ok n := newMessage_contents
  -- the message that was read is a new one, so that the first holds what it held
  have hlater : h'.contents r = .ok m := by
    have hgrows : h.Grows h' := h.grows_alloc_message rfl
    exact (hgrows.contents hh.closed (hS.has hr)).trans hm
  have hne : r ≠ h.fresh .message := fun he => h.not_has_fresh .message (he ▸ hS.has hr)
  have hd : n.descriptor = m.descriptor := hn.descriptor.trans htakes.descriptor.symm
  refine ⟨h.fresh .message, h', run_readJson (htext _ _) (ht ▸ hread), ?_, ?_, ?_⟩
  · rw [← descriptor_contents hback, hn.descriptor, ht]
  · rw [equals_messages hne hlater hback hd, hleft]
  · rw [equals_messages hne.symm hback hlater hd.symm, hright]

end Heap

/-! ## A pending edit -/

namespace Sample

/-- The file of nodes, as builders make it. -/
def nodeFile : FileBuilder :=
  let node : MessageBuilder := { name := "Node" }
  let file : FileBuilder := { name := "node.proto", package := "", edition := .proto3 }
  file.message ((((node.oneofField "side" "left" 1 (.message "Node")).oneofField
    "side" "right" 2 (.message "Node")).field "depth" 3 (.scalar .int32)).repeated "items" 4 (.scalar .int32))

theorem built_pool : pool.Built := by
  have hmade : nodeFile.Made := fun m hm => by
    rw [List.mem_singleton.1 hm]
    exact .repeated (.field (.oneofField (.oneofField .start)))
  have hfiles : Pool.ofFiles 0 [nodeFile.build] = .ok pool := by cbv
  exact ⟨0, [nodeFile], List.forall_mem_singleton.2 hmade, hfiles⟩

/-- A node is an object with its set fields. -/
theorem toJsonWithin?_node {depth : Nat} {fs : List (Nat × Stored)} {members : List (String × Json)}
    (h : Message.fieldsToJson? depth (.mk node fs []) fs = some members) :
    (Message.mk node fs []).toJsonWithin? depth = some (.object members) := by
  have hwrapper : wrappedType? node.fullName = none := by decide
  have hany : (node.fullName == anyFullName) = false := by decide
  rw [Message.toJsonWithin?.eq_def]
  dsimp only
  rw [hwrapper, hany]
  exact congrArg (Option.map Json.object) h

/-- One that has one field set is an object with one member. -/
theorem toJsonWithin?_oneField {depth : Nat} {f : FieldDescriptor} {s : Stored} {j : Json}
    (hf : node.numbered? f.number = some f) (hset : (Message.mk node [(f.number, s)] []).has f = true)
    (hs : s.toJson? depth f = some j) :
    (Message.mk node [(f.number, s)] []).toJsonWithin? depth = some (.object [(f.name, j)]) := by
  refine toJsonWithin?_node ?_
  rw [Message.fieldsToJson?, Message.descriptor_mk, hf]
  dsimp only
  rw [if_pos hset, hs, Message.fieldsToJson?]

theorem toJson?_fullTree :
    fullTree.toJson? = some (.object [("right", .object [("depth", .int 5)])]) := by
  have htwin : twin.toJsonWithin? fullTree.formDepth = some (.object [("depth", .int 5)]) :=
    toJsonWithin?_oneField (f := ⟨node, field "depth" 3 (.scalar .int32) false none⟩) rfl rfl
      (by rw [Stored.toJson?]; rfl)
  exact toJsonWithin?_oneField (f := rightField) rfl rfl (by rw [Stored.toJson?, htwin])

theorem plain_node {m : Message} (hm : m.descriptor = node) (hinner : ∀ c, m.Encloses c → c.Plain) :
    m.Plain := by
  refine .mk ?_ (fun f hf _ => ?_) hinner
  · rw [Message.fullName, hm]
    decide
  · rw [hm] at hf
    have hall : ∀ f ∈ node.fields, f.heldKind.isFloat = false ∧ f.heldKind.name ∉ Message.formNames := by
      decide
    exact hall f hf

theorem plain_fullTree : fullTree.Plain := by
  refine plain_node rfl ?_
  rintro c ⟨f, -, s, hs, hc⟩
  obtain rfl := eq_of_stored?_single hs
  cases hc
  refine plain_node rfl ?_
  rintro c ⟨f, -, s, hs, hc⟩
  obtain rfl := eq_of_stored?_single hs
  cases hc

theorem jsonFits_fullTree : fullTree.JsonFits := by
  intro j hj
  obtain rfl := Option.some.inj (toJson?_fullTree.symm.trans hj)
  decide

theorem declaresWrappers_pool : pool.DeclaresWrappers := by
  intro m hm t ht
  obtain rfl := List.mem_singleton.1 hm
  cases ht

/-- The node is written and read again, the edit of its right side included. -/
theorem edited_node_jsonRoundTrips : Heap.Reachable {pool} edited ∧
    edited.TypedOn pool {q | edited.Has q} ∧ pool.Built ∧ pool.PlainKeys ∧ pool.DeclaresWrappers ∧
    (edited.cell root).content = tree ∧ edited.contents root = .ok fullTree ∧
    fullTree.Plain ∧ fullTree.NanFree ∧ fullTree.JsonFits ∧
    ∀ library compact, edited.JsonRoundTrips library root compact := by
  have htyped := reachable_edited.typed.typedOn reachable_edited.closed
  have hroot : edited.Has ⟨.message, root⟩ := (by decide : 0 < 2)
  have hkeys : pool.PlainKeys := by decide
  obtain ⟨m, hm, hall⟩ := reachable_edited.jsonRoundTrips htyped built_pool hkeys declaresWrappers_pool hroot
  obtain rfl : m = fullTree := Except.ok.inj (hm.symm.trans contents_root)
  exact ⟨reachable_edited, htyped, built_pool, hkeys, declaresWrappers_pool, rfl, hm, plain_fullTree,
    nanFree_fullTree, jsonFits_fullTree, hall plain_fullTree nanFree_fullTree jsonFits_fullTree⟩

/-! ### What is not written or not equal -/

/-- The file of tallies, which have a map with bytes as keys. -/
def tallyFile : FileBuilder :=
  let tally : MessageBuilder := { name := "Tally" }
  let file : FileBuilder := { name := "tally.proto", package := "", edition := .proto3 }
  file.message (tally.map "counts" 1 (.scalar .bytes) (.scalar .int32))

/-- The pool made from the file. -/
def tallies : Pool where
  id := 13
  messages := [
    { name := "Tally"
      fullName := "Tally"
      package := ""
      edition := .proto3
      parent := none
      isMapEntry := false
      fields := [field "counts" 1 (.message 1) true none]
      nodup_numbers := by decide
      nodup_names := by decide },
    { name := "CountsEntry"
      fullName := "Tally.CountsEntry"
      package := ""
      edition := .proto3
      parent := some 0
      isMapEntry := true
      fields := [
        field "key" 1 (.scalar .bytes) false none,
        field "value" 2 (.scalar .int32) false none]
      nodup_numbers := by decide
      nodup_names := by decide }]
  enums := []
  nodup_names := by decide
  kinds_within := by decide

theorem built_tallies : tallies.Built := by
  have hmade : tallyFile.Made := fun m hm => by
    rw [List.mem_singleton.1 hm]
    exact .map .start
  have hfiles : Pool.ofFiles 13 [tallyFile.build] = .ok tallies := by cbv
  exact ⟨13, [tallyFile], List.forall_mem_singleton.2 hmade, hfiles⟩

def tally : MessageDescriptor := ⟨tallies, 0⟩

def countsField : FieldDescriptor := ⟨tally, field "counts" 1 (.message 1) true none⟩

def unread : Heap where
  messages := #[{ content := .empty tally, config := {} }]

/-- After the counts were read. -/
def countsRead : Heap where
  messages := #[{ content := .empty tally, views := [("counts", .map ⟨0⟩)], config := {} }]
  maps := #[{ field := countsField, config := {} }]

/-- After a count was set. -/
def counted : Heap where
  messages := countsRead.messages
  maps := #[{ field := countsField, entries := [(.text "a", .int 2)], config := {} }]

theorem reachable_counted : Heap.Reachable {tallies} counted := by
  have hwrap : ((Operation.wrap ⟨tallies, {}⟩ (.empty tally)).run {}).2 = unread := rfl
  have hattr : ((Operation.attr (.message root) "counts").run unread).2 = countsRead := rfl
  have hset : ((Operation.setIndex (.map ⟨0⟩) (.bytes [0x61]) (.int 2)).run countsRead).2 = counted :=
    rfl
  have hview := given {tallies} countsRead (.map ⟨0⟩) nofun
    (fun q hq => by cases hq; exact (by decide : 0 < countsRead.maps.size)) rfl nofun
  have hkey := given {tallies} countsRead (.bytes [0x61]) nofun nofun rfl nofun
  have htwo := given {tallies} countsRead (.int 2) nofun nofun rfl nofun
  have hunread : Heap.Reachable {tallies} unread := by
    rw [← hwrap]
    exact .single (.operation _ ⟨nofun, nofun, ⟨Set.mem_singleton _, by decide⟩, .empty tally⟩)
  have hread : Heap.Reachable {tallies} countsRead := by
    rw [← hattr]
    exact hunread.tail (.operation _ (within_of_message {tallies} unread rfl (by decide) trivial))
  rw [← hset]
  exact hread.tail (.operation _ (within_of_given
    (List.forall_mem_cons.2 ⟨hview, List.forall_mem_cons.2 ⟨hkey, List.forall_mem_singleton.2 htwo⟩⟩) trivial))

/-- The file of gauges, whose level is NaN by default. -/
def gaugeFile : FileBuilder :=
  let gauge : MessageBuilder := { name := "Gauge" }
  let file : FileBuilder := { name := "gauge.proto", package := "", edition := .proto3 }
  file.message (gauge.fieldWithDefault "level" 1 (.scalar .double) "nan")

/-- The field of the level. -/
def levelInfo : FieldInfo where
  name := "level"
  jsonName := "level"
  number := 1
  isRepeated := false
  kind := .scalar .double
  hasPresence := false
  declaredDefault := some (.f64 (.quietNaN false))
  oneof := none
  takes_default := by rintro _ ⟨⟩; rfl
  repeated_presence := fun _ _ => rfl

/-- The pool made from the file. -/
def gauges : Pool where
  id := 14
  messages := [{
    name := "Gauge"
    fullName := "Gauge"
    package := ""
    edition := .proto3
    parent := none
    isMapEntry := false
    fields := [levelInfo]
    nodup_numbers := by decide
    nodup_names := by decide }]
  enums := []
  nodup_names := by decide
  kinds_within := by decide

/-- The level is resolved with its default. -/
theorem field_level {s : Scope} {site : MessageSite}
    (hedition : (s.files.getD site.file default).edition = .proto3) :
    s.field site { MessageBuilder.declare "level" 1 (.scalar .double) .optional with
      defaultText := some "nan" } = .ok levelInfo := by
  have hpresence : ((s.files.getD site.file default).edition == Edition.proto2) = false := by
    rw [hedition]
    rfl
  have hname : lowerCamel "level" = "level" := by decide
  refine congrArg Except.ok ?_
  simp only [levelInfo, FieldInfo.mk.injEq]
  exact ⟨rfl, hname, rfl, rfl, trivial, hpresence, rfl, rfl⟩

theorem ofFiles_gaugeFile : Pool.ofFiles 14 [gaugeFile.build] = .ok gauges := by
  have hmessages (s : Scope) (hs : s.files = [gaugeFile.build]) :
      (messageSites [gaugeFile.build]).mapM s.message = .ok gauges.messages := by
    refine Except.mapM_ok.2 (.cons (Except.bind_ok.2 ⟨[levelInfo], ?_, ?_⟩) .nil)
    · exact Except.mapM_ok.2 (.cons (field_level (by rw [hs]; rfl)) .nil)
    refine Except.bind_ok.2 ⟨⟨List.nodup_singleton _⟩, rfl, ?_⟩
    refine Except.bind_ok.2 ⟨⟨List.nodup_singleton _⟩, rfl, ?_⟩
    refine Except.bind_ok.2 ⟨⟨List.nodup_singleton _⟩, rfl, congrArg Except.ok ?_⟩
    simp only [hs, List.mergeSort_singleton]
    rfl
  unfold Pool.ofFiles
  refine Except.bind_ok.2 ⟨⟨List.nodup_singleton _⟩, rfl, ?_⟩
  refine Except.bind_ok.2 ⟨⟨⟩, rfl, ?_⟩
  refine Except.bind_ok.2 ⟨⟨by decide⟩, rfl, ?_⟩
  refine Except.bind_ok.2 ⟨_, hmessages _ rfl, ?_⟩
  refine Except.bind_ok.2 ⟨[], rfl, ?_⟩
  refine Except.bind_ok.2 ⟨⟨gauges.nodup_names⟩, rfl, ?_⟩
  exact Except.bind_ok.2 ⟨⟨gauges.kinds_within⟩, rfl, rfl⟩

theorem built_gauges : gauges.Built := by
  have hmade : gaugeFile.Made := fun m hm => by
    rw [List.mem_singleton.1 hm]
    exact .fieldWithDefault .start
  exact ⟨14, [gaugeFile], List.forall_mem_singleton.2 hmade, ofFiles_gaugeFile⟩

def gauge : MessageDescriptor := ⟨gauges, 0⟩

def gauged : Heap where
  messages := #[{ content := .empty gauge, config := {} }]

theorem reachable_gauged : Heap.Reachable {gauges} gauged := by
  have hwrap : ((Operation.wrap ⟨gauges, {}⟩ (.empty gauge)).run {}).2 = gauged := rfl
  rw [← hwrap]
  exact .single (.operation _ ⟨nofun, nofun, ⟨Set.mem_singleton _, by decide⟩, .empty gauge⟩)

theorem contents_gauged : gauged.contents root = .ok (.empty gauge) := Heap.contents_of_views_eq_nil rfl

theorem toJson?_gauged : (Message.empty gauge).toJson? = some (.object []) := by
  have hwrapper : wrappedType? gauge.fullName = none := by decide
  have hany : (gauge.fullName == anyFullName) = false := by decide
  rw [Message.toJson?, Message.empty, Message.toJsonWithin?.eq_def]
  dsimp only
  rw [hwrapper, hany]
  dsimp only
  rw [if_neg Bool.false_ne_true, Message.fieldsToJson?, Option.map_some]

theorem ofJson?_gauged : Message.ofJson? gauge (.object []) = some (.empty gauge) := by
  have hwrapper : wrappedType? gauge.fullName = none := by decide
  have hany : (gauge.fullName == anyFullName) = false := by decide
  rw [Message.ofJson?, hany, if_neg Bool.false_ne_true, hwrapper, Option.isSome_none,
    if_neg Bool.false_ne_true, Message.readMembers?]

/-- What comes back for a gauge reads as NaN, too, and equals nothing. -/
theorem not_jsonRoundTrips_gauged (library : Library) (compact : Bool) :
    ¬ gauged.JsonRoundTrips library root compact := by
  rintro ⟨s, hwrite, hback⟩
  have htext := Json.ofText?_layout (j := .object []) compact (gauged.cell root).config.jsonIndent
    (.object (List.forall_mem_nil _)) (by decide)
  rw [Heap.run_writeJson contents_gauged toJson?_gauged compact] at hwrite
  cases hwrite
  obtain ⟨back, h', hread, -, hequal, -⟩ := hback ⟨gauge, {}⟩ rfl
  rw [Heap.run_readJson htext ofJson?_gauged] at hread
  cases hread
  have hlater : (gauged.alloc .message { content := .empty gauge, config := {} }).contents root =
      .ok (.empty gauge) := Heap.contents_of_views_eq_nil rfl
  have hunequal : (Message.empty gauge).equals (.empty gauge) = false := by decide +kernel
  rw [Heap.equals_messages (by decide) hlater Heap.newMessage_contents rfl, hunequal] at hequal
  cases hequal

theorem plain_empty {d : MessageDescriptor} (hd : d.fullName ∉ Message.formNames) :
    (Message.empty d).Plain :=
  .mk hd (fun _ _ hset => by cases hset) fun c hc => absurd hc (Message.not_encloses_empty d c)

/-- **Messages that are not written and read again.** A tally whose map has bytes as keys cannot be
flushed after a count was set through its view, so it is not written. A gauge that holds nothing reads as
NaN, and so does what comes back; the two are not equal. -/
theorem tally_and_gauge_lost :
    (tallies.Built ∧ Heap.Reachable {tallies} counted ∧ (counted.cell root).content.descriptor = tally ∧
      (∀ library compact, ∃ e, (Heap.writeJson library root compact).run counted = (.error e, counted)) ∧
      ∀ library compact, ¬ counted.JsonRoundTrips library root compact) ∧
    gauges.Built ∧ Heap.Reachable {gauges} gauged ∧ gauged.contents root = .ok (.empty gauge) ∧
      (Message.empty gauge).Plain ∧ (Message.empty gauge).JsonFits ∧
      ∀ library compact, ¬ gauged.JsonRoundTrips library root compact := by
  obtain ⟨e, he⟩ : ∃ e, counted.contents root = .error e := by
    rw [Heap.contents_eq]
    exact ⟨_, rfl⟩
  refine ⟨⟨built_tallies, reachable_counted, rfl, fun _ compact => ⟨e, Heap.run_writeJson_error he compact⟩,
    fun library compact => ?_⟩, built_gauges, reachable_gauged, contents_gauged, plain_empty (by decide),
    fun j hj => ?_, not_jsonRoundTrips_gauged⟩
  · rintro ⟨s, hwrite, -⟩
    rw [Heap.run_writeJson_error he compact] at hwrite
    cases hwrite
  · obtain rfl := Option.some.inj (toJson?_gauged.symm.trans hj)
    decide

end Sample

end Protoscript
