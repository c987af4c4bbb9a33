import Protoscript.Proofs.Failure
import Protoscript.Proofs.Reading
import Protoscript.Schema.Resolve

/-!
# Packing and unpacking

A message is packed with a URL that ends in its full name, and unpacked as the type that the text after
the last slash names. The two agree if the settings put nothing between that slash and the full name,
or a dot, which the lookup of names leaves out.

* `Pool.DeclaresAny` — the envelope is declared as `anyFile` declares it;
* `Config.Separates` — settings whose URLs end in a slash and a full name;
* `typeNameOfUrl_append`, `Pool.bareName_append_iff` — the name that is found in a URL;
* `Heap.RoundTrips` — a message is packed and unpacked again as an equal one;
* `Heap.roundTrips_iff` — when that is so.
-/

namespace Protoscript

/-! ## Names in URLs -/

/-- The text after the last slash goes on with what is added, unless that has a slash itself. -/
theorem typeNameOfUrl_append {url name : String} (hname : '/' ∉ name.toList) :
    typeNameOfUrl (url ++ name) = typeNameOfUrl url ++ name := by
  have hall : ∀ c ∈ name.toList.reverse, (c != '/') = true := by
    intro c hc
    rw [bne_iff_ne]
    rintro rfl
    exact hname (List.mem_reverse.1 hc)
  unfold typeNameOfUrl
  rw [String.toList_append, List.reverse_append, List.takeWhile_append_of_pos hall,
    List.reverse_append, List.reverse_reverse, String.ofList_append, String.ofList_toList]

/-- Only a dot in front of a name is left out when the name is looked up. -/
theorem Pool.bareName_append_iff {tail name : String} (hname : bareName name = name) :
    bareName (tail ++ name) = name ↔ tail = "" ∨ tail = "." := by
  have hlength {s : String} (h : s ++ name = name) : s = "" := by
    have hlen := congrArg String.length h
    rw [String.length_append] at hlen
    exact String.length_eq_zero_iff.1 (by omega)
  constructor
  · intro h
    unfold bareName at h
    split at h
    · rename_i rest hrest
      rw [String.toList_append] at hrest
      rcases htail : tail.toList with _ | ⟨c, cs⟩
      · exact .inl (String.toList_eq_nil_iff.1 htail)
      · rw [htail, List.cons_append] at hrest
        obtain ⟨rfl, rfl⟩ := List.cons.inj hrest
        rw [String.ofList_append, String.ofList_toList] at h
        have hcs := hlength h
        refine .inr (String.toList_inj.1 ?_)
        rw [htail, show cs = [] by simpa using congrArg String.toList hcs]
        rfl
    · exact .inl (hlength h)
  · rintro (rfl | rfl)
    · rw [String.empty_append, hname]
    · unfold bareName
      rw [String.toList_append]
      exact String.ofList_toList

/-- A type of a pool is found by its name, and by no other. -/
theorem MessageDescriptor.message?_eq_some {p : Pool} {d : MessageDescriptor} (hd : d.Among {p})
    {name : String} : p.message? name = some d ↔ Pool.bareName name = d.fullName := by
  obtain ⟨pool, i⟩ := d
  obtain rfl : pool = p := hd.pool_eq
  have hi : i < pool.messages.length := hd.declared
  have hfull : (⟨pool, i⟩ : MessageDescriptor).fullName = pool.messages[i].fullName := by
    unfold fullName info
    rw [List.getD_eq_getElem _ _ hi]
  rw [hfull]
  unfold Pool.message?
  rw [Option.map_eq_some_iff]
  constructor
  · rintro ⟨j, hj, heq⟩
    cases heq
    obtain ⟨_, hfound, -⟩ := List.findIdx?_eq_some_iff_getElem.1 hj
    exact (beq_iff_eq.1 hfound).symm
  · intro hname
    refine ⟨i, List.findIdx?_eq_some_iff_getElem.2 ⟨hi, beq_iff_eq.2 hname.symm, fun j hlt => ?_⟩, rfl⟩
    -- no other message of the pool has the name
    rw [beq_iff_eq, hname]
    have hpairs := List.pairwise_iff_getElem.1 (List.pairwise_map.1 pool.nodup_names)
    exact hpairs j i (by omega) hi hlt

/-! ## The envelope -/

/-- The field `type_url`, as `anyFile` declares it. -/
def typeUrlInfo : FieldInfo where
  name := "type_url"
  jsonName := "typeUrl"
  number := 1
  isRepeated := false
  kind := .scalar .string
  hasPresence := false
  declaredDefault := none
  oneof := none
  takes_default := nofun
  repeated_presence := nofun

/-- The field `value`, as `anyFile` declares it. -/
def payloadInfo : FieldInfo where
  name := "value"
  jsonName := "value"
  number := 2
  isRepeated := false
  kind := .scalar .bytes
  hasPresence := false
  declaredDefault := none
  oneof := none
  takes_default := nofun
  repeated_presence := nofun

/-- Whether a pool has the envelope, with the fields that `anyFile` declares. -/
def Pool.DeclaresAny (p : Pool) : Prop :=
  ∃ d, p.message? anyFullName = some d ∧ d.info.fields = [typeUrlInfo, payloadInfo]

theorem Message.setNumber_eq {m : Message} {f : FieldDescriptor} {number : Nat} {value : Scalar}
    (hf : m.descriptor.numbered? number = some f) (htakes : f.takes value = true) :
    m.setNumber number value = m.set f (.scalar value) := by
  unfold setNumber
  rw [hf]
  exact if_pos htakes

/-- What was packed is found in the envelope. -/
theorem Message.packing_empty {d : MessageDescriptor} (hd : d.info.fields = [typeUrlInfo, payloadInfo])
    (url : String) (payload : List UInt8) :
    (packing (.empty d) url payload).descriptor = d ∧
      (packing (.empty d) url payload).anyUrl = url ∧
      (packing (.empty d) url payload).anyBytes = payload := by
  have hfirst : d.numbered? 1 = some ⟨d, typeUrlInfo⟩ := by
    unfold MessageDescriptor.numbered?
    rw [hd]
    rfl
  have hsecond : d.numbered? 2 = some ⟨d, payloadInfo⟩ := by
    unfold MessageDescriptor.numbered?
    rw [hd]
    rfl
  have hurl : d.field? "type_url" = some ⟨d, typeUrlInfo⟩ := by
    unfold MessageDescriptor.field?
    rw [hd]
    rfl
  have hvalue : d.field? "value" = some ⟨d, payloadInfo⟩ := by
    unfold MessageDescriptor.field?
    rw [hd]
    rfl
  have hpacked : packing (.empty d) url payload =
      mk d [(1, .scalar (.text url)), (2, .scalar (.bytes payload))] [] := by
    have hnamed : (empty d).setNumber 1 (.text url) = mk d [(1, .scalar (.text url))] [] :=
      setNumber_eq (f := ⟨d, typeUrlInfo⟩) hfirst rfl
    rw [packing, hnamed]
    exact setNumber_eq (f := ⟨d, payloadInfo⟩) hsecond rfl
  rw [hpacked]
  refine ⟨rfl, ?_, ?_⟩
  · unfold anyUrl
    rw [descriptor_mk, hurl]
    rfl
  · unfold anyBytes
    rw [descriptor_mk, hvalue]
    rfl

/-- A packed message is unpacked as the type that its URL names. -/
theorem Message.unpack_packing {d : MessageDescriptor}
    (hd : d.info.fields = [typeUrlInfo, payloadInfo]) (hname : d.fullName = anyFullName)
    {url : String} {payload : List UInt8} {p : Pool} {n : Message} :
    (packing (.empty d) url payload).unpack p = .ok n ↔
      ∃ t, p.message? (typeNameOfUrl url) = some t ∧ Message.ofWire? t payload = some n := by
  obtain ⟨hdescriptor, hurl, hbytes⟩ := packing_empty hd url payload
  have hfull : (packing (.empty d) url payload).fullName = anyFullName := by
    unfold fullName
    rw [hdescriptor, hname]
  unfold unpack
  rw [hurl, hbytes, hfull, if_neg (by simp)]
  rcases p.message? (typeNameOfUrl url) with _ | t
  · simp
  · rcases hwire : Message.ofWire? t payload with _ | payload
    · simp [hwire]
    · simp [hwire]

/-! ## Settings -/

/-- Whether the URLs of the settings end in a slash and a full name, or in a full name alone, up to a
dot in front of it. -/
def Config.Separates (c : Config) : Prop :=
  typeNameOfUrl c.anyUrlBase = "" ∨ typeNameOfUrl c.anyUrlBase = "."

/-- Whether a full name is one that can be told in a URL and looked up: it has no slash, and no dot in
front. -/
structure PlainName (name : String) : Prop where
  slash : '/' ∉ name.toList
  dot : Pool.bareName name = name

/-- **Which settings make URLs of the right name**: a type is found by its URL if and only if the
settings separate names. -/
theorem MessageDescriptor.message?_typeUrl_iff {p : Pool} {d : MessageDescriptor} (hd : d.Among {p})
    (hname : PlainName d.fullName) {c : Config} :
    p.message? (typeNameOfUrl (c.typeUrl d.fullName)) = some d ↔ c.Separates := by
  unfold Config.typeUrl Config.Separates
  rw [message?_eq_some hd, typeNameOfUrl_append hname.slash, Pool.bareName_append_iff hname.dot]

/-! ## Runs -/

namespace Heap

variable {h : Heap} {library : Library} {r : Ref .message} {m : Message}

/-- Calls a function of a library with a message. -/
def ask (library : Library) (f : Function) (r : Ref .message) : Operation Value :=
  .call (.callable (.function library f)) [.message r] []

/-- A message is packed into a new one. -/
theorem run_encodeAny {packed : Message} (hm : h.contents r = .ok m)
    (hpacked : m.pack (h.cell r).config = .ok packed) :
    (ask library .encodeAny r).run h = (.ok (.message (h.fresh .message)),
      h.alloc .message { content := packed, config := (h.cell r).config }) := by
  have hrun : (ask library .encodeAny r).run h = Script.run (do
      let config := (← Script.cell r).config
      Script.newMessage (← Script.ofExcept ((← Script.contents r).pack config)) config) h := rfl
  simp only [hrun, Script.run_bind, Script.run_cell, Script.contents, Script.run_reading, hm,
    Script.run_ofExcept, hpacked]
  rfl

/-- What is in an envelope is unpacked into a new message. -/
theorem run_decodeAny (hm : h.contents r = .ok m) :
    (ask library .decodeAny r).run h =
      match m.unpack library.loader.pool with
      | .ok n => (.ok (.message (h.fresh .message)),
          h.alloc .message { content := n, config := (h.cell r).config })
      | .error e => (.error e, h) := by
  have hrun : (ask library .decodeAny r).run h = Script.run (do
      let config := (← Script.cell r).config
      Script.newMessage (← Script.ofExcept ((← Script.contents r).unpack library.loader.pool)) config)
      h := rfl
  simp only [hrun, Script.run_bind, Script.run_cell, Script.contents, Script.run_reading, hm,
    Script.run_ofExcept]
  rcases m.unpack library.loader.pool with e | n <;> rfl

/-- Whether a message is packed into an envelope whose URL ends in its full name, and unpacked from it
as a message of its type that equals it. -/
def RoundTrips (h : Heap) (library : Library) (r : Ref .message) : Prop :=
  ∃ m any packed mid back n h',
    h.contents r = .ok m ∧
    (ask library .encodeAny r).run h = (.ok (.message any), mid) ∧
    mid.contents any = .ok packed ∧ packed.fullName = anyFullName ∧
    (∃ base, packed.anyUrl = base ++ m.fullName) ∧
    (ask library .decodeAny any).run mid = (.ok (.message back), h') ∧
    h'.contents back = .ok n ∧ n.descriptor = m.descriptor ∧
    h'.equals (.message r) (.message back) = .ok true

end Heap

/-- Whether a message is read back from its bytes as an equal one. -/
def Message.IsReadBack (m : Message) : Prop :=
  ∃ n, Message.ofWire? m.descriptor m.toWire = some n ∧ m.equals n = true

namespace Heap

variable {pools : Set Pool} {h : Heap} {library : Library} {r : Ref .message} {m : Message}

/-- The contents of a message are of its type. -/
theorem descriptor_contents (hm : h.contents r = .ok m) :
    m.descriptor = (h.cell r).content.descriptor := by
  rw [contents_eq, Except.map_ok] at hm
  obtain ⟨ws, -, rfl⟩ := hm
  exact Message.descriptor_writeAll _ ws

/-- A new message holds what it was made with. -/
theorem newMessage_contents {config : Config} :
    (h.alloc .message { content := m, config := config }).contents (h.fresh .message) = .ok m := by
  have hcell := cell_alloc_self h (s := .message) { content := m, config := config }
  rw [contents_of_views_eq_nil (by rw [hcell]), hcell]

/-- Messages of one type are equal if their contents are. -/
theorem equals_messages {q : Ref .message} {n : Message} (hne : r ≠ q) (hm : h.contents r = .ok m)
    (hn : h.contents q = .ok n) (hd : n.descriptor = m.descriptor) :
    h.equals (.message r) (.message q) = .ok (m.equals n) := by
  have hname : h.fullName r = h.fullName q := by
    unfold fullName Message.fullName
    rw [← descriptor_contents hm, ← descriptor_contents hn, hd]
  unfold equals
  rw [equalsWithin]
  · simp [sequenceItems?, mappingEntries?, flatEquals, hne, hname, hm, hn]
  · simp

section

variable (hh : Reachable pools h) (hr : h.Has ⟨.message, r⟩)
  (hm : h.contents r = .ok m) (hd : m.descriptor.Among {library.loader.pool})
  (hany : library.loader.pool.DeclaresAny) (hname : PlainName m.fullName)

include hm hd hany

/-- A message of a pool that declares the envelope is packed. -/
theorem pack_ok : ∃ d packed, d.info.fields = [typeUrlInfo, payloadInfo] ∧ d.fullName = anyFullName ∧
    packed = .packing (.empty d) ((h.cell r).config.typeUrl m.fullName) m.toWire ∧
    (ask library .encodeAny r).run h = (.ok (.message (h.fresh .message)),
      h.alloc .message { content := packed, config := (h.cell r).config }) := by
  obtain ⟨d, hlookup, hfields⟩ := hany
  have hdname := (MessageDescriptor.message?_eq_some
    (Pool.among_of_message? (Set.mem_singleton _) hlookup)).1 hlookup
  refine ⟨d, _, hfields, hdname.symm, rfl, run_encodeAny hm ?_⟩
  unfold Message.pack
  rw [hd.pool_eq, hlookup]

/-- What is unpacked as the type that was packed was found by its URL. -/
theorem RoundTrips.found (ht : h.RoundTrips library r) :
    library.loader.pool.message? (typeNameOfUrl ((h.cell r).config.typeUrl m.fullName)) =
      some m.descriptor := by
  obtain ⟨m', any, packed', mid, back, n, h', hm', hrun, -, -, -, hback, hn, hnd, -⟩ := ht
  obtain rfl : m = m' := Except.ok.inj (hm.symm.trans hm')
  obtain ⟨d, packed, hfields, hdname, hpacked, hencode⟩ := pack_ok hm hd hany
  rw [hencode] at hrun
  cases hrun
  rw [run_decodeAny newMessage_contents] at hback
  rcases hunpack : packed.unpack library.loader.pool with e | n'
  · rw [hunpack] at hback
    cases hback
  · rw [hunpack] at hback
    cases hback
    obtain rfl : n' = n := Except.ok.inj (newMessage_contents.symm.trans hn)
    rw [hpacked] at hunpack
    obtain ⟨t, ht, hread⟩ := (Message.unpack_packing hfields hdname).1 hunpack
    rwa [← Message.descriptor_of_ofWire? hread, hnd] at ht

include hname

/-- So the settings separate its name. -/
theorem RoundTrips.separates (ht : h.RoundTrips library r) : (h.cell r).config.Separates :=
  (MessageDescriptor.message?_typeUrl_iff hd hname).1 (ht.found hm hd hany)

include hh hr

/-- What its bytes give back is unpacked, if the URL names its type. -/
theorem RoundTrips.of_separates (hwire : m.IsReadBack) (hsep : (h.cell r).config.Separates) :
    h.RoundTrips library r := by
  obtain ⟨n, hread, hequal⟩ := hwire
  obtain ⟨d, packed, hfields, hdname, hpacked, hencode⟩ := pack_ok hm hd hany
  obtain ⟨hdescriptor, hurl, -⟩ :=
    Message.packing_empty hfields ((h.cell r).config.typeUrl m.fullName) m.toWire
  rw [← hpacked] at hdescriptor hurl
  let mid := h.alloc .message { content := packed, config := (h.cell r).config }
  have hgrows : h.Grows mid := h.grows_alloc_message rfl
  have hback : (ask library .decodeAny (h.fresh .message)).run mid = _ :=
    run_decodeAny newMessage_contents
  have hunpack : packed.unpack library.loader.pool = .ok n := by
    rw [hpacked]
    exact (Message.unpack_packing hfields hdname).2
      ⟨_, (MessageDescriptor.message?_typeUrl_iff hd hname).2 hsep, hread⟩
  rw [hunpack] at hback
  have hnd : n.descriptor = m.descriptor := Message.descriptor_of_ofWire? hread
  refine ⟨m, _, packed, mid, _, n, _, hm, hencode, newMessage_contents, ?_, ⟨_, hurl⟩, hback,
    newMessage_contents, hnd, ?_⟩
  · exact (congrArg MessageDescriptor.fullName hdescriptor).trans hdname
  · have hlater := hgrows.trans (mid.grows_alloc_message
      (c := { content := n, config := (mid.cell (h.fresh .message)).config }) rfl)
    have hne : r ≠ mid.fresh .message := by
      intro he
      exact mid.not_has_fresh .message (he ▸ hgrows.has hr)
    rw [equals_messages hne ((hlater.contents hh.closed hr).trans hm) newMessage_contents hnd, hequal]

end

/-- **When packing and unpacking gives a message back.** For a message that its bytes give back, that
is so if and only if its settings separate names. -/
theorem roundTrips_iff (hh : Reachable pools h) (hr : h.Has ⟨.message, r⟩)
    (hm : h.contents r = .ok m) (hd : m.descriptor.Among {library.loader.pool})
    (hany : library.loader.pool.DeclaresAny) (hname : PlainName m.fullName) (hwire : m.IsReadBack) :
    h.RoundTrips library r ↔ (h.cell r).config.Separates :=
  ⟨fun ht => ht.separates hm hd hany hname, fun hsep => .of_separates hh hr hm hd hany hname hwire hsep⟩

end Heap

/-! ## A note in an envelope -/

namespace Sample

/-- A pool with the envelope and a message type to put into it. -/
def envelopes : Pool where
  id := 5
  messages := [
    { name := "Any"
      fullName := "google.protobuf.Any"
      package := "google.protobuf"
      edition := .proto3
      parent := none
      isMapEntry := false
      fields := [typeUrlInfo, payloadInfo]
      nodup_numbers := by decide
      nodup_names := by decide },
    { name := "Note"
      fullName := "Note"
      package := ""
      edition := .proto3
      parent := none
      isMapEntry := false
      fields := [field "depth" 1 (.scalar .int32) false none]
      nodup_numbers := by decide
      nodup_names := by decide }]
  enums := []
  nodup_names := by decide
  kinds_within := by decide

def envelopeLibrary : Library := ⟨0, ⟨envelopes, {}⟩⟩

def noteType : MessageDescriptor := ⟨envelopes, 1⟩

def note : Message := .mk noteType [(1, .scalar (.i32 5))] []

/-- The note as a host hands it over with some settings. -/
def noted (config : Config) : Heap where
  messages := #[{ content := note, config := config }]

theorem conforms_note : note.Conforms :=
  (Message.Conforms.empty noteType).set (f := ⟨noteType, field "depth" 1 (.scalar .int32) false none⟩)
    (.head _) (.single rfl rfl (.scalar rfl))

theorem reachable_noted (config : Config) : Heap.Reachable {envelopes} (noted config) := by
  have hrun : ((Operation.wrap ⟨envelopes, config⟩ note).run {}).2 = noted config := rfl
  rw [← hrun]
  exact .single (.operation _ ⟨nofun, nofun, ⟨Set.mem_singleton _, by decide⟩, conforms_note⟩)

theorem contents_note (config : Config) : (noted config).contents root = .ok note :=
  Heap.contents_of_views_eq_nil rfl

theorem among_noteType : noteType.Among {envelopeLibrary.loader.pool} :=
  ⟨Set.mem_singleton _, by decide⟩

theorem declaresAny_envelopes : envelopeLibrary.loader.pool.DeclaresAny :=
  ⟨⟨envelopes, 0⟩, by rfl, rfl⟩

theorem plainName_note : PlainName note.fullName := ⟨by decide, by rfl⟩

theorem isReadBack_note : note.IsReadBack :=
  ⟨note, by cbv, by cbv⟩

/-- With the default settings, the note is packed and unpacked again. -/
theorem note_roundTrips : Heap.Reachable {envelopes} (noted {}) ∧ PlainName note.fullName ∧
    note.IsReadBack ∧ (noted {}).RoundTrips envelopeLibrary root := by
  refine ⟨reachable_noted {}, plainName_note, isReadBack_note, ?_⟩
  have hroot : (noted {}).Has ⟨.message, root⟩ := (by decide : 0 < 1)
  exact (Heap.roundTrips_iff (reachable_noted {}) hroot (contents_note {}) among_noteType
    declaresAny_envelopes plainName_note isReadBack_note).2 (.inl (by decide))

/-- With settings whose URLs have no slash in front of the full name, it is not. -/
theorem note_stays_packed : ∃ config : Config, Heap.Reachable {envelopes} (noted config) ∧
    (noted config).contents root = .ok note ∧ envelopeLibrary.loader.pool.DeclaresAny ∧
    note.IsReadBack ∧ ¬ (noted config).RoundTrips envelopeLibrary root := by
  refine ⟨{ anyUrlBase := "example" }, reachable_noted _, contents_note _, declaresAny_envelopes,
    isReadBack_note, fun ht => ?_⟩
  have hsep := ht.separates (contents_note _) among_noteType declaresAny_envelopes plainName_note
  rcases hsep with hempty | hdot
  · exact absurd hempty (by decide)
  · exact absurd hdot (by decide)

/-- A pool with the envelope, a message type with a slash in its name, one with a dot in front, and one
that has a map with floats as keys. -/
def oddities : Pool where
  id := 18
  messages := [
    { name := "Any"
      fullName := "google.protobuf.Any"
      package := "google.protobuf"
      edition := .proto3
      parent := none
      isMapEntry := false
      fields := [typeUrlInfo, payloadInfo]
      nodup_numbers := by decide
      nodup_names := by decide },
    { name := "half/note"
      fullName := "half/note"
      package := ""
      edition := .proto3
      parent := none
      isMapEntry := false
      fields := [field "depth" 1 (.scalar .int32) false none]
      nodup_numbers := by decide
      nodup_names := by decide },
    { name := "note"
      fullName := ".dotted.note"
      package := ".dotted"
      edition := .proto3
      parent := none
      isMapEntry := false
      fields := [field "depth" 1 (.scalar .int32) false none]
      nodup_numbers := by decide
      nodup_names := by decide },
    { name := "Scale"
      fullName := "Scale"
      package := ""
      edition := .proto3
      parent := none
      isMapEntry := false
      fields := [field "balanced" 1 (.message 4) true none]
      nodup_numbers := by decide
      nodup_names := by decide },
    { name := "BalancedEntry"
      fullName := "Scale.BalancedEntry"
      package := ""
      edition := .proto3
      parent := some 3
      isMapEntry := true
      fields := [field "key" 1 (.scalar .double) false none, field "value" 2 (.scalar .bool) false none]
      nodup_numbers := by decide
      nodup_names := by decide }]
  enums := []
  nodup_names := by decide
  kinds_within := by decide

def oddLibrary : Library := ⟨0, ⟨oddities, {}⟩⟩

def slashedType : MessageDescriptor := ⟨oddities, 1⟩

def dottedType : MessageDescriptor := ⟨oddities, 2⟩

def oddScale : MessageDescriptor := ⟨oddities, 3⟩

/-- An empty message of the pool, as a host hands it over. -/
def odd (d : MessageDescriptor) : Heap where
  messages := #[{ content := .empty d, config := {} }]

theorem reachable_odd {d : MessageDescriptor} (hd : d.Among {oddities}) :
    Heap.Reachable {oddities} (odd d) := by
  have hrun : ((Operation.wrap ⟨oddities, {}⟩ (.empty d)).run {}).2 = odd d := rfl
  rw [← hrun]
  exact .single (.operation _ ⟨nofun, nofun, hd, .empty d⟩)

theorem contents_odd (d : MessageDescriptor) : (odd d).contents root = .ok (.empty d) :=
  Heap.contents_of_views_eq_nil rfl

theorem declaresAny_oddities : oddLibrary.loader.pool.DeclaresAny :=
  ⟨⟨oddities, 0⟩, by rfl, rfl⟩

/-- A message of a type that is not found by its URL is not unpacked. -/
theorem odd_not_roundTrips {d : MessageDescriptor} (hd : d.Among {oddities})
    (hlost : oddities.message? (typeNameOfUrl (Config.typeUrl {} d.fullName)) = none) :
    ¬ (odd d).RoundTrips oddLibrary root := by
  intro ht
  have hfound := ht.found (contents_odd d) hd declaresAny_oddities
  cases hlost.symm.trans hfound

/-- After the map of a scale was read. -/
def oddRead : Heap where
  messages := #[{ content := .empty oddScale, views := [("balanced", .map ⟨0⟩)], config := {} }]
  maps := #[{ field := ⟨oddScale, field "balanced" 1 (.message 4) true none⟩, config := {} }]

/-- After an entry was set. -/
def oddBalanced : Heap where
  messages := oddRead.messages
  maps := #[{
    field := ⟨oddScale, field "balanced" 1 (.message 4) true none⟩
    entries := [(.float (.ofInt 1), .bool true)]
    config := {} }]

theorem reachable_oddBalanced : Heap.Reachable {oddities} oddBalanced := by
  have hread : ((Operation.attr (.message root) "balanced").run (odd oddScale)).2 = oddRead := rfl
  have hset : ((Operation.setIndex (.map ⟨0⟩) (.int 1) (.bool true)).run oddRead).2 = oddBalanced := rfl
  have hview := given {oddities} oddRead (.map ⟨0⟩) nofun
    (fun q hq => by cases hq; exact (by decide : 0 < oddRead.maps.size)) rfl nofun
  have hone := given {oddities} oddRead (.int 1) nofun nofun rfl nofun
  have htrue := given {oddities} oddRead (.bool true) nofun nofun rfl nofun
  have hoddRead : Heap.Reachable {oddities} oddRead := by
    rw [← hread]
    exact (reachable_odd ⟨Set.mem_singleton _, by decide⟩).tail
      (.operation _ (within_of_message {oddities} (odd oddScale) rfl (by decide) trivial))
  rw [← hset]
  exact hoddRead.tail (.operation _ (within_of_given
    (List.forall_mem_cons.2
      ⟨hview, List.forall_mem_cons.2 ⟨hone, List.forall_mem_singleton.2 htrue⟩⟩) trivial))

/-- **What does not come back**: with some settings the note, and with the default ones a message whose
name has a slash, or a dot in front, or one that cannot be flushed. -/
theorem some_stay_packed :
    (∃ config : Config, Heap.Reachable {envelopes} (noted config) ∧
      (noted config).contents root = .ok note ∧ envelopeLibrary.loader.pool.DeclaresAny ∧
      note.IsReadBack ∧ ¬ (noted config).RoundTrips envelopeLibrary root) ∧
    oddLibrary.loader.pool.DeclaresAny ∧
    (Heap.Reachable {oddities} (odd slashedType) ∧
      (odd slashedType).contents root = .ok (.empty slashedType) ∧ (Message.empty slashedType).IsReadBack ∧
      ¬ (odd slashedType).RoundTrips oddLibrary root) ∧
    (Heap.Reachable {oddities} (odd dottedType) ∧
      (odd dottedType).contents root = .ok (.empty dottedType) ∧ (Message.empty dottedType).IsReadBack ∧
      ¬ (odd dottedType).RoundTrips oddLibrary root) ∧
    Heap.Reachable {oddities} oddBalanced ∧ ¬ oddBalanced.RoundTrips oddLibrary root := by
  have hslashed : slashedType.Among {oddities} := ⟨Set.mem_singleton _, by decide⟩
  have hdotted : dottedType.Among {oddities} := ⟨Set.mem_singleton _, by decide⟩
  refine ⟨note_stays_packed, declaresAny_oddities,
    ⟨reachable_odd hslashed, contents_odd _, ⟨.empty slashedType, by cbv, by cbv⟩,
      odd_not_roundTrips hslashed (by decide)⟩,
    ⟨reachable_odd hdotted, contents_odd _, ⟨.empty dottedType, by cbv, by cbv⟩,
      odd_not_roundTrips hdotted (by decide)⟩,
    reachable_oddBalanced, ?_⟩
  -- there is nothing to pack
  rintro ⟨m, _, _, _, _, _, _, hm, -⟩
  have herror : ∃ e, oddBalanced.contents root = .error e := by
    rw [Heap.contents_eq]
    exact ⟨_, rfl⟩
  obtain ⟨e, he⟩ := herror
  cases he.symm.trans hm

end Sample

end Protoscript
