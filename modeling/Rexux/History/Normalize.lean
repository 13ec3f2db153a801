import Rexux.Foundation.ListEdits
import Rexux.History.ResponseItem

/-!
# Preparing the history for a prompt

Every call is given an output, outputs without their call are taken out, and media the
model does not accept are replaced by a note.  In a release build a history that was
inconsistent is only logged.
-/

namespace Rexux.History

open Foundation List ResponseItemEnvelope FunctionCallOutputContentItem

/-! ## Calls and outputs -/

inductive CallKind
  | function
  | toolSearch
  | customTool
  deriving DecidableEq, Repr

/-- Calls and outputs belong together by kind and call id. -/
abbrev CallKey := CallKind × Text

/-- A local shell call is answered by a function call output. -/
def callKey : ResponseItem → Option CallKey
  | .functionCall _ callId _ _ => some (.function, callId)
  | .localShellCall _ (some callId) _ _ => some (.function, callId)
  | .toolSearchCall _ (some callId) _ _ _ => some (.toolSearch, callId)
  | .customToolCall _ callId _ _ => some (.customTool, callId)
  | _ => none

/-- The call that an output answers. -/
def outputKey : ResponseItem → Option CallKey
  | .functionCallOutput _ (some callId) _ _ _ _ => some (.function, callId)
  | .toolSearchOutput _ (some callId) _ _ _ _ => some (.toolSearch, callId)
  | .customToolCallOutput _ callId _ _ _ => some (.customTool, callId)
  | _ => none

/-- The ids the source collects in one set for each kind. -/
def outputKeys (items : List ResponseItemEnvelope) : List CallKey :=
  items.filterMap fun envelope => outputKey envelope.item

/-- The calls of a history. -/
def callKeys (items : List ResponseItemEnvelope) : List CallKey :=
  items.filterMap fun envelope => callKey envelope.item

/-- The output of a search that the server has run, which needs no call. -/
def isServerExecuted : ResponseItem → Bool
  | .toolSearchOutput _ _ _ execution _ _ => execution = "server".toList
  | _ => false

section Normalize

-- The identifier derived from a name.
variable (newV5 : Text → Text)

/-- The id of an output that is made up, derived from its call. -/
def syntheticOutputId (kind : Text) (itemId : Option Text) : Option Text :=
  match itemId with
  | none => none
  | some sourceId =>
    if sourceId = [] then none
    else some (kind ++ ['_'] ++ newV5 (kind ++ [':'] ++ sourceId))

def abortedFunctionOutput (id : Option Text) (callId : Text) : ResponseItem :=
  .functionCallOutput (syntheticOutputId newV5 "fco".toList id) (some callId) none none
    (.fromText "aborted".toList) none

/-- The output that stands in for a missing one. -/
def syntheticOutput : ResponseItem → Option ResponseItem
  | .functionCall id callId _ _ => some (abortedFunctionOutput newV5 id callId)
  | .toolSearchCall id (some callId) _ _ _ =>
    some (.toolSearchOutput (syntheticOutputId newV5 "tso".toList id) (some callId)
      "completed".toList "client".toList [] none)
  | .customToolCall id callId _ _ =>
    some (.customToolCallOutput (syntheticOutputId newV5 "ctco".toList id) callId none
      (.fromText "aborted".toList) none)
  | .localShellCall id (some callId) _ _ => some (abortedFunctionOutput newV5 id callId)
  | _ => none

/-- The output to be inserted behind a call that has none. -/
def missingOutput (present : List CallKey) (envelope : ResponseItemEnvelope) :
    Option ResponseItemEnvelope :=
  if (callKey envelope.item).any (present.contains ·) then none
  else (syntheticOutput newV5 envelope.item).map .new

/-- Every call gets an output. -/
def ensureCallOutputsPresent (items : List ResponseItemEnvelope) : List ResponseItemEnvelope :=
  insertAllAfter (editsFrom (missingOutput newV5 (outputKeys items)) 0 items) items

/-- An output without its call. -/
def isOrphan (calls : List CallKey) (envelope : ResponseItemEnvelope) : Bool :=
  !isServerExecuted envelope.item && (outputKey envelope.item).any fun key => !calls.contains key

/-- Drop the outputs without calls. -/
def removeOrphanOutputs (items : List ResponseItemEnvelope) : List ResponseItemEnvelope :=
  retainExcept 0 (positionsFrom (isOrphan (callKeys items)) 0 items) items

/-! ## Unsupported media -/

inductive InputModality
  | text
  | image
  | audio
  deriving DecidableEq, Repr

open InputModality

/-- The text that replaces a medium, and its kind. -/
structure UnsupportedMedia where
  text : Text
  contentKind : Text

def UnsupportedMedia.image : UnsupportedMedia where
  text := "image content omitted because you do not support image input".toList
  contentKind := "images.unsupported".toList

def UnsupportedMedia.audio : UnsupportedMedia where
  text := "audio content omitted because you do not support audio input".toList
  contentKind := "audio.unsupported".toList

/-- One kind of media: where it occurs and what takes its place. -/
structure MediaFilter where
  media : UnsupportedMedia
  inMessage : ContentItem → Bool
  inOutput : FunctionCallOutputContentItem → Bool

open MediaFilter

namespace MediaFilter

variable (filter : MediaFilter)

def annotated (content : AnnotatedContent) : AnnotatedContent :=
  if filter.inMessage content.1 then (.inputText filter.media.text, filter.media.contentKind)
  else content

def outputContent (content : FunctionCallOutputContentItem) : FunctionCallOutputContentItem :=
  if filter.inOutput content then .inputText filter.media.text else content

def payload (output : FunctionCallOutputPayload) : FunctionCallOutputPayload :=
  match output.body with
  | .text _ => output
  | .contentItems items => { output with body := .contentItems (items.map filter.outputContent) }

/-- Replace a medium in messages and outputs. -/
def strip : ResponseItem → ResponseItem
  | .message id role content phase passthrough =>
    let stripped := (toAnnotatedContent content passthrough).map filter.annotated
    .message id role (stripped.map Prod.fst) phase
      (setContentKinds passthrough (stripped.map Prod.snd))
  | .functionCallOutput id callId name namespace' output passthrough =>
    .functionCallOutput id callId name namespace' (filter.payload output) passthrough
  | .customToolCallOutput id callId name output passthrough =>
    .customToolCallOutput id callId name (filter.payload output) passthrough
  | item => item

end MediaFilter

def ContentItem.isInputImage : ContentItem → Bool
  | .inputImage _ _ => true
  | _ => false

def ContentItem.isInputAudio : ContentItem → Bool
  | .inputAudio _ => true
  | _ => false

def FunctionCallOutputContentItem.isInputImage : FunctionCallOutputContentItem → Bool
  | .inputImage _ _ => true
  | _ => false

def FunctionCallOutputContentItem.isInputAudio : FunctionCallOutputContentItem → Bool
  | .inputAudio _ => true
  | _ => false

def imageFilter : MediaFilter where
  media := .image
  inMessage := ContentItem.isInputImage
  inOutput := isInputImage

def audioFilter : MediaFilter where
  media := .audio
  inMessage := ContentItem.isInputAudio
  inOutput := isInputAudio

def clearGeneratedImage : ResponseItem → ResponseItem
  | .imageGenerationCall id status revisedPrompt _ passthrough =>
    .imageGenerationCall id status revisedPrompt [] passthrough
  | item => item

/-- Images, generated ones included, are replaced. -/
def stripImages (item : ResponseItem) : ResponseItem := imageFilter.strip (clearGeneratedImage item)

def stripAudio (item : ResponseItem) : ResponseItem := audioFilter.strip item

def ResponseItemEnvelope.mapItem (f : ResponseItem → ResponseItem)
    (envelope : ResponseItemEnvelope) : ResponseItemEnvelope :=
  { envelope with item := f envelope.item }

variable (inputModalities : List InputModality) (items : List ResponseItemEnvelope)

def stripImagesWhenUnsupported : List ResponseItemEnvelope :=
  if inputModalities.contains .image then items else items.map (·.mapItem stripImages)

def stripAudioWhenUnsupported : List ResponseItemEnvelope :=
  if inputModalities.contains .audio then items else items.map (·.mapItem stripAudio)

def normalizeHistory : List ResponseItemEnvelope :=
  stripAudioWhenUnsupported inputModalities
    (stripImagesWhenUnsupported inputModalities
      (removeOrphanOutputs (ensureCallOutputsPresent newV5 items)))

/-! ## What stripping keeps -/

variable {newV5}

def stripUnsupported (item : ResponseItem) : ResponseItem :=
  let withoutImages := if inputModalities.contains .image then item else stripImages item
  if inputModalities.contains .audio then withoutImages else stripAudio withoutImages

variable (inputModalities : List InputModality)

theorem strip_eq_map :
    stripAudioWhenUnsupported inputModalities
        (stripImagesWhenUnsupported inputModalities items) =
      items.map (·.mapItem (stripUnsupported inputModalities)) := by
  unfold stripAudioWhenUnsupported stripImagesWhenUnsupported stripUnsupported
  split
  · split
    · simp [mapItem]
    · rfl
  · split
    · rfl
    · simp [mapItem]

/-- What pairs an item with others is read the same before and after `f`. -/
structure KeepsKeys (f : ResponseItem → ResponseItem) : Prop where
  call : ∀ item, callKey (f item) = callKey item
  output : ∀ item, outputKey (f item) = outputKey item
  server : ∀ item, isServerExecuted (f item) = isServerExecuted item

theorem MediaFilter.strip_keepsKeys (filter : MediaFilter) : KeepsKeys filter.strip where
  call item := by cases item <;> rfl
  output item := by
    cases item with
    | functionCallOutput id callId name namespace' output passthrough => cases callId <;> rfl
    | _ => rfl
  server item := by cases item <;> rfl

theorem clearGeneratedImage_keepsKeys : KeepsKeys clearGeneratedImage where
  call item := by cases item <;> rfl
  output item := by cases item <;> rfl
  server item := by cases item <;> rfl

theorem KeepsKeys.comp {f g : ResponseItem → ResponseItem} (hf : KeepsKeys f)
    (hg : KeepsKeys g) : KeepsKeys (fun item => f (g item)) :=
  ⟨fun item => (hf.call _).trans (hg.call item), fun item => (hf.output _).trans (hg.output item),
    fun item => (hf.server _).trans (hg.server item)⟩

theorem stripUnsupported_keepsKeys : KeepsKeys (stripUnsupported inputModalities) := by
  have hid : KeepsKeys fun item => item := ⟨fun _ => rfl, fun _ => rfl, fun _ => rfl⟩
  have haudio : KeepsKeys stripAudio := audioFilter.strip_keepsKeys
  have himages : KeepsKeys stripImages :=
    imageFilter.strip_keepsKeys.comp clearGeneratedImage_keepsKeys
  unfold stripUnsupported
  cases inputModalities.contains image with
  | true =>
    cases inputModalities.contains audio with
    | true => exact hid
    | false => exact haudio
  | false =>
    cases inputModalities.contains audio with
    | true => exact himages
    | false => exact haudio.comp himages

/-! ## Stripping twice -/

theorem annotate_unzip (content : List AnnotatedContent) :
    annotate (content.map Prod.fst) (content.map Prod.snd) = content := by
  induction content with
  | nil => rfl
  | cons entry content ih => rw [map_cons, map_cons, annotate, ih]

theorem MediaFilter.strip_strip_message (first second : MediaFilter) (id : Option Text)
    (role : Text) (content : List ContentItem) (phase : Option Text) (passthrough : Passthrough) :
    second.strip (first.strip (.message id role content phase passthrough)) =
      let stripped := (toAnnotatedContent content passthrough).map
        fun entry => second.annotated (first.annotated entry)
      .message id role (stripped.map Prod.fst) phase
        (setContentKinds passthrough (stripped.map Prod.snd)) := by
  have hmap (entries : List AnnotatedContent) :
      (entries.map first.annotated).map second.annotated =
        entries.map fun entry => second.annotated (first.annotated entry) := map_map
  have hset (entries : List AnnotatedContent) : toAnnotatedContent (entries.map Prod.fst)
      (setContentKinds passthrough (entries.map Prod.snd)) = entries := annotate_unzip entries
  simp only [MediaFilter.strip, hset, hmap]
  rfl

theorem MediaFilter.payload_payload (first second : MediaFilter)
    (output : FunctionCallOutputPayload) :
    second.payload (first.payload output) = match output.body with
      | .text _ => output
      | .contentItems items =>
        { output with
          body := .contentItems (items.map fun item =>
            second.outputContent (first.outputContent item)) } := by
  obtain ⟨body, success⟩ := output
  cases body with
  | text text => rfl
  | contentItems items => simp [payload]

theorem MediaFilter.strip_strip_congr {first second first' second' : MediaFilter}
    (hmessage : ∀ entry, second.annotated (first.annotated entry) =
      second'.annotated (first'.annotated entry))
    (houtput : ∀ item, second.outputContent (first.outputContent item) =
      second'.outputContent (first'.outputContent item)) (item : ResponseItem) :
    second.strip (first.strip item) = second'.strip (first'.strip item) := by
  cases item with
  | message id role content phase passthrough =>
    rw [strip_strip_message, strip_strip_message]
    simp only [hmessage]
  | functionCallOutput id callId name namespace' output passthrough =>
    simp only [strip, payload_payload, houtput]
  | customToolCallOutput id callId name output passthrough =>
    simp only [strip, payload_payload, houtput]
  | _ => rfl

/-- What is put in place of media is not itself taken for any. -/
structure MediaFilter.LeavesText (filter : MediaFilter) : Prop where
  inMessage : ∀ text, filter.inMessage (.inputText text) = false
  inOutput : ∀ text, filter.inOutput (.inputText text) = false

theorem MediaFilter.strip_strip_self (filter : MediaFilter) (item : ResponseItem) :
    filter.strip (filter.strip item) = filter.strip item := by
  have hmessage (entry : AnnotatedContent) :
      filter.annotated (filter.annotated entry) = filter.annotated entry := by
    cases hentry : filter.inMessage entry.1 with
    | true => simp [annotated, hentry]
    | false => simp [annotated, hentry]
  have houtput (content : FunctionCallOutputContentItem) :
      filter.outputContent (filter.outputContent content) = filter.outputContent content := by
    cases hcontent : filter.inOutput content with
    | true => simp [outputContent, hcontent]
    | false => simp [outputContent, hcontent]
  have hpayload (output : FunctionCallOutputPayload) :
      filter.payload (filter.payload output) = filter.payload output := by
    simp only [payload_payload, houtput]
    rfl
  cases item with
  | message id role content phase passthrough =>
    rw [strip_strip_message]
    simp only [hmessage]
    rfl
  | functionCallOutput id callId name namespace' output passthrough => simp only [strip, hpayload]
  | customToolCallOutput id callId name output passthrough => simp only [strip, hpayload]
  | _ => rfl

theorem MediaFilter.strip_comm {first second : MediaFilter} (hfirst : first.LeavesText)
    (hsecond : second.LeavesText)
    (hmessage : ∀ content, first.inMessage content → second.inMessage content = false)
    (houtput : ∀ content, first.inOutput content → second.inOutput content = false)
    (item : ResponseItem) : first.strip (second.strip item) = second.strip (first.strip item) := by
  apply strip_strip_congr
  · intro entry
    cases hentry : first.inMessage entry.1 with
    | true => simp [annotated, hentry, hmessage _ hentry, hsecond.inMessage]
    | false =>
      cases hother : second.inMessage entry.1 with
      | true => simp [annotated, hentry, hother, hfirst.inMessage]
      | false => simp [annotated, hentry, hother]
  · intro content
    cases hcontent : first.inOutput content with
    | true => simp [outputContent, hcontent, houtput _ hcontent, hsecond.inOutput]
    | false =>
      cases hother : second.inOutput content with
      | true => simp [outputContent, hcontent, hother, hfirst.inOutput]
      | false => simp [outputContent, hcontent, hother]

theorem imageFilter_leavesText : imageFilter.LeavesText := ⟨fun _ => rfl, fun _ => rfl⟩

theorem audioFilter_leavesText : audioFilter.LeavesText := ⟨fun _ => rfl, fun _ => rfl⟩

theorem MediaFilter.strip_clearGeneratedImage (filter : MediaFilter) (item : ResponseItem) :
    filter.strip (clearGeneratedImage item) = clearGeneratedImage (filter.strip item) := by
  cases item <;> rfl

variable (item : ResponseItem)

theorem stripImages_stripImages :
    stripImages (stripImages item) = stripImages item := by
  have hclear : clearGeneratedImage (clearGeneratedImage item) = clearGeneratedImage item := by
    cases item <;> rfl
  unfold stripImages
  rw [← strip_clearGeneratedImage, hclear, strip_strip_self]

theorem stripImages_stripAudio :
    stripImages (stripAudio item) = stripAudio (stripImages item) := by
  unfold stripImages stripAudio
  rw [← strip_clearGeneratedImage]
  apply strip_comm imageFilter_leavesText audioFilter_leavesText
  all_goals
    intro content hcontent
    cases content with
    | inputAudio audioUrl => cases hcontent
    | _ => rfl

theorem stripUnsupported_self :
    stripUnsupported inputModalities (stripUnsupported inputModalities item) =
      stripUnsupported inputModalities item := by
  have haudio (item : ResponseItem) : stripAudio (stripAudio item) = stripAudio item :=
    strip_strip_self audioFilter item
  unfold stripUnsupported
  cases inputModalities.contains image with
  | true =>
    cases inputModalities.contains audio with
    | true => rfl
    | false => exact haudio item
  | false =>
    cases inputModalities.contains audio with
    | true => exact stripImages_stripImages item
    | false =>
      change stripAudio (stripImages (stripAudio (stripImages item))) = _
      rw [stripImages_stripAudio, stripImages_stripImages, haudio]
      rfl

section Pairing

variable {items : List ResponseItemEnvelope} {key : CallKey}

theorem mem_callKeys :
    key ∈ callKeys items ↔ ∃ envelope ∈ items, callKey envelope.item = some key :=
  mem_filterMap

theorem mem_outputKeys :
    key ∈ outputKeys items ↔ ∃ envelope ∈ items, outputKey envelope.item = some key :=
  mem_filterMap

variable {item : ResponseItem}

/-- An output is made up exactly for what has a key as a call. -/
theorem syntheticOutput_spec (newV5 : Text → Text) (item : ResponseItem) :
    callKey item = none ∧ syntheticOutput newV5 item = none ∨
      ∃ key output, callKey item = some key ∧ syntheticOutput newV5 item = some output ∧
        outputKey output = some key ∧ callKey output = none := by
  cases item with
  | functionCall | customToolCall => exact .inr ⟨_, _, rfl, rfl, rfl, rfl⟩
  | localShellCall id callId action passthrough =>
    cases callId with
    | none => exact .inl ⟨rfl, rfl⟩
    | some callId => exact .inr ⟨_, _, rfl, rfl, rfl, rfl⟩
  | toolSearchCall id callId execution arguments passthrough =>
    cases callId with
    | none => exact .inl ⟨rfl, rfl⟩
    | some callId => exact .inr ⟨_, _, rfl, rfl, rfl, rfl⟩
  | _ => exact .inl ⟨rfl, rfl⟩

theorem callKey_eq_none_of_outputKey (h : outputKey item = some key) : callKey item = none := by
  cases item with
  | functionCallOutput | customToolCallOutput | toolSearchOutput => rfl
  | _ => cases h

def withMissingOutput (newV5 : Text → Text) (present : List CallKey)
    (envelope : ResponseItemEnvelope) : List ResponseItemEnvelope :=
  envelope :: (missingOutput newV5 present envelope).toList

variable (newV5 items) in
theorem ensureCallOutputsPresent_eq :
    ensureCallOutputsPresent newV5 items =
      items.flatMap (withMissingOutput newV5 (outputKeys items)) :=
  insertAllAfter_append _ [] items

theorem removeOrphanOutputs_eq (items : List ResponseItemEnvelope) :
    removeOrphanOutputs items = items.filter (!isOrphan (callKeys items) ·) :=
  retainExcept_eq_filter _ 0 items

variable {present calls : List CallKey} {envelope : ResponseItemEnvelope}

/-- An inserted output answers the call that it stands behind. -/
theorem missingOutput_spec {inserted : ResponseItemEnvelope}
    (h : missingOutput newV5 present envelope = some inserted) :
    ∃ key, callKey envelope.item = some key ∧ key ∉ present ∧
      outputKey inserted.item = some key ∧ callKey inserted.item = none := by
  unfold missingOutput at h
  split_ifs at h with habsent
  obtain ⟨output, houtput, rfl⟩ := Option.map_eq_some_iff.mp h
  rcases syntheticOutput_spec newV5 envelope.item with ⟨-, hnone⟩ | ⟨key, made, hown, hmade, hspec⟩
  · cases hnone.symm.trans houtput
  · cases hmade.symm.trans houtput
    rw [hown] at habsent
    exact ⟨key, hown, by simpa using habsent, hspec⟩

theorem missingOutput_eq_none (h : ∀ key, callKey envelope.item = some key → key ∈ present) :
    missingOutput newV5 present envelope = none := by
  cases hmissing : missingOutput newV5 present envelope with
  | none => rfl
  | some inserted =>
    obtain ⟨key, hkey, habsent, -⟩ := missingOutput_spec hmissing
    exact absurd (h key hkey) habsent

/-- Every call without an output gets one. -/
theorem exists_missingOutput (newV5 : Text → Text)
    (hkey : callKey envelope.item = some key) (habsent : key ∉ present) :
    ∃ inserted, missingOutput newV5 present envelope = some inserted := by
  rcases syntheticOutput_spec newV5 envelope.item with ⟨hnone, -⟩ | ⟨own, output, -, houtput, -⟩
  · cases hnone.symm.trans hkey
  · refine ⟨.new output, ?_⟩
    simp [missingOutput, hkey, habsent, houtput]

variable (newV5 present envelope) in
theorem callKeys_withMissingOutput :
    callKeys (withMissingOutput newV5 present envelope) = callKeys [envelope] := by
  unfold withMissingOutput
  cases hmissing : missingOutput newV5 present envelope with
  | none => rfl
  | some inserted =>
    obtain ⟨-, -, -, -, hcall⟩ := missingOutput_spec hmissing
    unfold callKeys
    cases hown : callKey envelope.item with
    | none | some => simp [hcall, hown]

theorem callKeys_flatMap (newV5 : Text → Text) (present : List CallKey)
    (items : List ResponseItemEnvelope) :
    callKeys (items.flatMap (withMissingOutput newV5 present)) = callKeys items := by
  have hkeys := funext (callKeys_withMissingOutput newV5 present)
  unfold callKeys at hkeys ⊢
  rw [filterMap_flatMap, hkeys, ← filterMap_flatMap, flatMap_singleton']

theorem callKeys_filter (calls : List CallKey) (items : List ResponseItemEnvelope) :
    callKeys (items.filter (!isOrphan calls ·)) = callKeys items := by
  unfold callKeys
  rw [filterMap_filter]
  apply filterMap_congr
  intro envelope _
  cases houtput : outputKey envelope.item with
  | none => simp [isOrphan, houtput]
  | some key => rw [callKey_eq_none_of_outputKey houtput, ite_self]

variable (newV5 items) in
def paired : List ResponseItemEnvelope :=
  (items.flatMap (withMissingOutput newV5 (outputKeys items))).filter (!isOrphan (callKeys items) ·)

variable (newV5 items) in
theorem removeOrphanOutputs_ensure :
    removeOrphanOutputs (ensureCallOutputsPresent newV5 items) = paired newV5 items := by
  rw [removeOrphanOutputs_eq, ensureCallOutputsPresent_eq, callKeys_flatMap]
  rfl

variable (newV5 items) in
theorem callKeys_paired : callKeys (paired newV5 items) = callKeys items := by
  rw [paired, callKeys_filter, callKeys_flatMap]

theorem isOrphan_eq_false (h : ∀ key, outputKey envelope.item = some key → key ∈ calls) :
    isOrphan calls envelope = false := by
  unfold isOrphan
  cases houtput : outputKey envelope.item with
  | none => simp
  | some key => simp [h key houtput]

theorem mem_outputKeys_filter_flatMap (hkey : key ∈ calls) :
    key ∈ outputKeys ((items.flatMap (withMissingOutput newV5 present)).filter
        (!isOrphan calls ·)) ↔
      key ∈ outputKeys items ∨ key ∈ callKeys items ∧ key ∉ present := by
  rw [mem_outputKeys, mem_outputKeys, mem_callKeys]
  constructor
  · intro h
    obtain ⟨output, hmem, houtput⟩ := h
    obtain ⟨envelope, henvelope, hfound⟩ := mem_flatMap.mp (mem_filter.mp hmem).1
    rcases mem_cons.mp hfound with rfl | hinserted
    · exact .inl ⟨output, henvelope, houtput⟩
    · obtain ⟨own, hown, habsent, hanswer, -⟩ := missingOutput_spec (Option.mem_toList.mp hinserted)
      rw [houtput] at hanswer
      cases hanswer
      exact .inr ⟨⟨envelope, henvelope, hown⟩, habsent⟩
  · intro h
    have hkept (output : ResponseItemEnvelope) (houtput : outputKey output.item = some key)
        (hmem : output ∈ items.flatMap (withMissingOutput newV5 present)) :
        ∃ output ∈ (items.flatMap (withMissingOutput newV5 present)).filter
          (!isOrphan calls ·), outputKey output.item = some key := by
      refine ⟨output, mem_filter.mpr ⟨hmem, ?_⟩, houtput⟩
      rw [isOrphan_eq_false]
      · rfl
      · intro other hother
        rw [houtput] at hother
        cases hother
        exact hkey
    rcases h with ⟨output, hmem, houtput⟩ | ⟨⟨envelope, hmem, hown⟩, habsent⟩
    · exact hkept output houtput (mem_flatMap.mpr ⟨output, hmem, mem_cons_self⟩)
    · obtain ⟨inserted, hinserted⟩ := exists_missingOutput newV5 hown habsent
      obtain ⟨own, hown', -, hanswer, -⟩ := missingOutput_spec hinserted
      rw [hown] at hown'
      cases hown'
      refine hkept inserted hanswer (mem_flatMap.mpr ⟨envelope, hmem, ?_⟩)
      exact mem_cons_of_mem _ (Option.mem_toList.mpr hinserted)

theorem mem_outputKeys_paired (hkey : key ∈ callKeys items) :
    key ∈ outputKeys (paired newV5 items) := by
  apply (mem_outputKeys_filter_flatMap hkey).mpr
  by_cases hpresent : key ∈ outputKeys items
  · exact .inl hpresent
  · exact .inr ⟨hkey, hpresent⟩

theorem mem_callKeys_of_paired
    (hmem : envelope ∈ paired newV5 items) (hkey : outputKey envelope.item = some key)
    (hserver : isServerExecuted envelope.item = false) : key ∈ callKeys items := by
  have hkept := (mem_filter.mp hmem).2
  simpa [isOrphan, hserver, hkey] using hkept

/-- Histories that are paired are left as they are. -/
theorem paired_eq_self (hcalls : ∀ key ∈ callKeys items, key ∈ outputKeys items)
    (houtputs : ∀ envelope ∈ items, isOrphan (callKeys items) envelope = false) :
    paired newV5 items = items := by
  have hflat : items.flatMap (withMissingOutput newV5 (outputKeys items)) = items := by
    have hsingle (envelope : ResponseItemEnvelope) (hmem : envelope ∈ items) :
        withMissingOutput newV5 (outputKeys items) envelope = [envelope] := by
      rw [withMissingOutput, missingOutput_eq_none]
      · rfl
      · intro key hkey
        exact hcalls key (mem_callKeys.mpr ⟨envelope, hmem, hkey⟩)
    rw [flatMap_congr hsingle, flatMap_singleton']
  rw [paired, hflat]
  apply filter_eq_self.mpr
  intro envelope hmem
  rw [houtputs envelope hmem]
  rfl

/-! ## Order -/

def Followed : List ResponseItemEnvelope → Prop
  | [] => True
  | envelope :: items =>
    (∀ key, callKey envelope.item = some key → key ∈ outputKeys items) ∧ Followed items

def FollowedIfPresent (present : List CallKey) : List ResponseItemEnvelope → Prop
  | [] => True
  | envelope :: items =>
    (∀ key, callKey envelope.item = some key → key ∈ present → key ∈ outputKeys items) ∧
      FollowedIfPresent present items

theorem followed_cons_of_callKey_none
    (h : callKey envelope.item = none) : Followed (envelope :: items) ↔ Followed items := by
  rw [Followed, h]
  simp

theorem followed_filter_flatMap_iff (hcalls : ∀ key ∈ callKeys items, key ∈ calls) :
    Followed ((items.flatMap (withMissingOutput newV5 present)).filter (!isOrphan calls ·)) ↔
      FollowedIfPresent present items := by
  induction items with
  | nil => exact Iff.rfl
  | cons envelope items ih =>
    have hrest : ∀ key ∈ callKeys items, key ∈ calls := by
      intro key hkey
      obtain ⟨call, hmem, hcall⟩ := mem_callKeys.mp hkey
      exact hcalls key (mem_callKeys.mpr ⟨call, mem_cons_of_mem _ hmem, hcall⟩)
    rw [flatMap_cons, FollowedIfPresent, ← ih hrest]
    cases hown : callKey envelope.item with
    | none =>
      have hmissing : missingOutput newV5 present envelope = none :=
        missingOutput_eq_none (by simp [hown])
      rw [withMissingOutput, hmissing]
      cases horphan : isOrphan calls envelope with
      | true => simp [horphan]
      | false => simp [horphan, followed_cons_of_callKey_none hown]
    | some key =>
      have hkey : key ∈ calls := hcalls key (mem_callKeys.mpr ⟨envelope, mem_cons_self, hown⟩)
      have hkept : isOrphan calls envelope = false := by
        apply isOrphan_eq_false
        intro other hother
        rw [callKey_eq_none_of_outputKey hother] at hown
        cases hown
      by_cases hpresent : key ∈ present
      · have hmissing : missingOutput newV5 present envelope = none := by
          apply missingOutput_eq_none
          intro other hother
          rw [hown] at hother
          cases hother
          exact hpresent
        rw [withMissingOutput, hmissing]
        simp [hkept, Followed, hown, hpresent, mem_outputKeys_filter_flatMap hkey]
      · obtain ⟨inserted, hinserted⟩ := exists_missingOutput newV5 hown hpresent
        obtain ⟨answered, hanswered, -, hanswer, hcall⟩ := missingOutput_spec hinserted
        rw [hown] at hanswered
        cases hanswered
        have hinsertedKept : isOrphan calls inserted = false := by
          apply isOrphan_eq_false
          intro other hother
          rw [hanswer] at hother
          cases hother
          exact hkey
        rw [withMissingOutput, hinserted]
        simp [hkept, hinsertedKept, Followed, hown, hpresent, hcall, outputKeys, hanswer]

end Pairing

/-! ## The normalised history -/

variable (newV5 : Text → Text) (inputModalities : List InputModality)

/-- The passes of the source are one pairing and one map over the items. -/
theorem normalizeHistory_eq
    (items : List ResponseItemEnvelope) :
    normalizeHistory newV5 inputModalities items =
      (paired newV5 items).map (·.mapItem (stripUnsupported inputModalities)) := by
  rw [normalizeHistory, strip_eq_map, removeOrphanOutputs_ensure]

section MapItem

variable {f : ResponseItem → ResponseItem} (hf : KeepsKeys f) (items : List ResponseItemEnvelope)

include hf

theorem callKeys_map : callKeys (items.map (·.mapItem f)) = callKeys items := by
  unfold callKeys
  rw [filterMap_map]
  exact filterMap_congr fun envelope _ => hf.call envelope.item

theorem outputKeys_map : outputKeys (items.map (·.mapItem f)) = outputKeys items := by
  unfold outputKeys
  rw [filterMap_map]
  exact filterMap_congr fun envelope _ => hf.output envelope.item

theorem isOrphan_mapItem (calls : List CallKey) (envelope : ResponseItemEnvelope) :
    isOrphan calls (envelope.mapItem f) = isOrphan calls envelope := by
  simp only [isOrphan, mapItem, hf.output, hf.server]

theorem followed_map : Followed (items.map (·.mapItem f)) ↔ Followed items := by
  induction items with
  | nil => exact Iff.rfl
  | cons envelope items ih =>
    rw [map_cons, Followed, Followed, ih, outputKeys_map hf]
    simp only [mapItem, hf.call]

end MapItem

def isNotOutput (envelope : ResponseItemEnvelope) : Bool := (outputKey envelope.item).isNone

theorem filter_isNotOutput_paired (items : List ResponseItemEnvelope) :
    (paired newV5 items).filter isNotOutput = items.filter isNotOutput := by
  have hkept (envelope : ResponseItemEnvelope) :
      (isNotOutput envelope && !isOrphan (callKeys items) envelope) = isNotOutput envelope := by
    cases houtput : outputKey envelope.item with
    | none => simp [isOrphan, houtput]
    | some key => simp [isNotOutput, houtput]
  have hsingle (envelope : ResponseItemEnvelope) :
      (withMissingOutput newV5 (outputKeys items) envelope).filter isNotOutput =
        [envelope].filter isNotOutput := by
    unfold withMissingOutput
    cases hmissing : missingOutput newV5 (outputKeys items) envelope with
    | none => rfl
    | some inserted =>
      obtain ⟨key, -, -, hanswer, -⟩ := missingOutput_spec hmissing
      simp [filter_cons, isNotOutput, hanswer]
  rw [paired, filter_filter, funext hkept, filter_flatMap, funext hsingle, ← filter_flatMap,
    flatMap_singleton']

theorem filter_sublist_paired (items : List ResponseItemEnvelope) :
    (items.filter (!isOrphan (callKeys items) ·)).Sublist (paired newV5 items) := by
  apply List.Sublist.filter
  generalize outputKeys items = present
  induction items with
  | nil => exact .slnil
  | cons envelope items ih =>
    exact (ih.trans (sublist_append_right _ _)).cons_cons envelope

/-- Replacing media does not unpair anything. -/
theorem paired_map_self :
    paired newV5 ((paired newV5 items).map (·.mapItem (stripUnsupported inputModalities))) =
      (paired newV5 items).map (·.mapItem (stripUnsupported inputModalities)) := by
  have hkeeps := stripUnsupported_keepsKeys inputModalities
  apply paired_eq_self
  · intro key hkey
    rw [callKeys_map hkeeps, callKeys_paired] at hkey
    rw [outputKeys_map hkeeps]
    exact mem_outputKeys_paired hkey
  · intro envelope hmem
    obtain ⟨kept, hkept, rfl⟩ := mem_map.mp hmem
    rw [callKeys_map hkeeps, callKeys_paired, isOrphan_mapItem hkeeps]
    exact (Bool.not_eq_true' _).mp (mem_filter.mp hkept).2

/-- After normalisation calls and outputs are paired, everything else is as it was but
for the media the model does not accept, and normalising again changes nothing.  A call's
output comes after it unless the history had outputs for it only before. -/
theorem normalizeHistory_pairs
    (items : List ResponseItemEnvelope) :
    (∀ key ∈ callKeys (normalizeHistory newV5 inputModalities items),
      key ∈ outputKeys (normalizeHistory newV5 inputModalities items)) ∧
    (Followed (normalizeHistory newV5 inputModalities items) ↔
      FollowedIfPresent (outputKeys items) items) ∧
    (∀ envelope ∈ normalizeHistory newV5 inputModalities items, ∀ key,
      outputKey envelope.item = some key → isServerExecuted envelope.item = false →
      key ∈ callKeys (normalizeHistory newV5 inputModalities items)) ∧
    (normalizeHistory newV5 inputModalities items).filter isNotOutput =
      (items.filter isNotOutput).map (·.mapItem (stripUnsupported inputModalities)) ∧
    ((items.filter (!isOrphan (callKeys items) ·)).map
      (·.mapItem (stripUnsupported inputModalities))).Sublist
        (normalizeHistory newV5 inputModalities items) ∧
    normalizeHistory newV5 inputModalities (normalizeHistory newV5 inputModalities items) =
      normalizeHistory newV5 inputModalities items := by
  have hkeeps := stripUnsupported_keepsKeys inputModalities
  have hcallKeys : callKeys (normalizeHistory newV5 inputModalities items) = callKeys items := by
    rw [normalizeHistory_eq, callKeys_map hkeeps, callKeys_paired]
  refine ⟨?_, ?_, ?_, ?_, ?_, ?_⟩
  · intro key hkey
    rw [hcallKeys] at hkey
    rw [normalizeHistory_eq, outputKeys_map hkeeps]
    exact mem_outputKeys_paired hkey
  · rw [normalizeHistory_eq, followed_map hkeeps]
    exact followed_filter_flatMap_iff fun _ hkey => hkey
  · intro envelope hmem key hkey hserver
    rw [normalizeHistory_eq] at hmem
    obtain ⟨kept, hkept, rfl⟩ := mem_map.mp hmem
    rw [hcallKeys]
    exact mem_callKeys_of_paired hkept ((hkeeps.output kept.item).symm.trans hkey)
      ((hkeeps.server kept.item).symm.trans hserver)
  · rw [normalizeHistory_eq, ← filter_isNotOutput_paired newV5 items, filter_map]
    congr 1
    apply filter_congr
    intro envelope _
    simp [isNotOutput, mapItem, hkeeps.output]
  · rw [normalizeHistory_eq]
    exact (filter_sublist_paired newV5 items).map _
  · rw [normalizeHistory_eq newV5 inputModalities items, normalizeHistory_eq, paired_map_self,
      map_map]
    apply map_congr_left
    intro envelope _
    simp [mapItem, stripUnsupported_self]

def earlyOutput : ResponseItemEnvelope :=
  .new (.functionCallOutput none (some "c1".toList) none none (.fromText "ok".toList) none)

def lateCall : ResponseItemEnvelope := .new (.functionCall none "c1".toList "f1".toList none)

/-- An output before its call keeps one from being added after it. -/
theorem late_call_not_followed :
    normalizeHistory id [.text, .image, .audio] [earlyOutput, lateCall] = [earlyOutput, lateCall] ∧
      ¬ Followed (normalizeHistory id [.text, .image, .audio] [earlyOutput, lateCall]) := by
  have heq : normalizeHistory id [.text, .image, .audio] [earlyOutput, lateCall] =
      [earlyOutput, lateCall] := by decide
  refine ⟨heq, ?_⟩
  intro hfollowed
  exact absurd (hfollowed.2.1 (.function, "c1".toList) rfl) (not_mem_nil)

end Normalize

end Rexux.History
