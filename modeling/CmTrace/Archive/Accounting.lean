import CmTrace.Archive.Batches

/-!
# Accounting for members

A visit ends in one of two ways, with a gap or with a member handed on.  What it
does to the budgets is said once; what holds of the whole intake follows by
induction on the members.
-/

namespace CmTrace
namespace Archive

open Text Export

/-- What a visit leaves behind. -/
structure Visit where
  member : EvtxArchiveMember
  gap : Option EvtxCoverageGap
  emitted : Option ArchiveMember

def contentLength : OpenedEntry → Nat
  | .error _ => 0
  | .ok entry => entry.reader.content.length

/-- The bytes that were kept or hashed to the end: those of a member with a hash. -/
def Visit.kept (v : Visit) (opened : OpenedEntry) : Nat :=
  if v.member.sha256.isSome then contentLength opened else 0

/-- The path is made of the name of the member, or of its place where the name
cannot be shown. -/
def NamesMember (source : Text) (index : Nat) (opened : OpenedEntry) (path : Text) : Prop :=
  path = memberLabelAt source index ∨ ∃ entry, opened = .ok entry ∧
    (path = memberLabel source entry.rawName ∨
      ∃ name, validateMemberName entry.rawName = some name ∧ path = memberLabel source name)

def GapOf (source : Text) (index : Nat) (path : Text) (gap : EvtxCoverageGap) : Prop :=
  gap.source = path ∨ gap.source = source ∧
    "member ".toList ++ decimal index ++ " ".toList <+: gap.reason

/-- What holds of a visit whatever came before it. -/
structure About (source : Text) (index : Nat) (opened : OpenedEntry) (v : Visit) : Prop where
  path : NamesMember source index opened v.member.path
  ends : v.gap.isSome ∨ v.emitted.isSome
  gapOf : ∀ gap ∈ v.gap, GapOf source index v.member.path gap
  label : ∀ m ∈ v.emitted, m.sourceLabel = v.member.path ∧
    ∃ name, SafeRelativePath name ∧ v.member.path = memberLabel source name
  explained : ∀ m ∈ v.emitted, v.member.outcome ≠ .parsed → m.parsed.coverageGaps ≠ []
  size : v.kept opened ≤ maxArchiveMemberBytes

/-- What a visit does to the state. -/
structure Steps (source : Text) (maxRecords : Nat) (opened : OpenedEntry) (v : Visit)
    (s s' : ArchiveState) : Prop where
  metadata : s'.result.metadata = s.result.metadata ++ [v.member]
  reports : ∀ gaps, Reports s.result gaps → Reports s'.result (gaps ++ v.gap.toList)
  sent : s'.sent = s.sent ++ v.emitted.toList
  emittedMembers : s'.emittedMembers = s.emittedMembers + v.emitted.toList.length
  totalRecords : s'.totalRecords =
    s.totalRecords + (v.emitted.toList.map fun m => m.parsed.records.length).sum
  recordBudget : s.totalRecords ≤ maxRecords → s'.totalRecords ≤ maxRecords
  byteBudget : s.totalBytes ≤ maxArchiveTotalBytes →
    s.totalBytes + v.kept opened ≤ s'.totalBytes ∧ s'.totalBytes ≤ maxArchiveTotalBytes
  seen : s.seenPaths ⊆ s'.seenPaths
  fresh : ∀ m ∈ v.emitted, ∃ name, m.sourceLabel = memberLabel source name ∧
    toAsciiLowercase name ∉ s.seenPaths ∧ toAsciiLowercase name ∈ s'.seenPaths

/-! ## Up to the end of a visit -/

/-- The state before the end of a visit that kept `k` bytes: nothing is reported
or handed on yet. -/
structure Advances (k : Nat) (s s' : ArchiveState) : Prop where
  result : s'.result = s.result
  totalRecords : s'.totalRecords = s.totalRecords
  emittedMembers : s'.emittedMembers = s.emittedMembers
  sent : s'.sent = s.sent
  seen : s.seenPaths ⊆ s'.seenPaths
  bytes : s.totalBytes ≤ maxArchiveTotalBytes →
    s.totalBytes + k ≤ s'.totalBytes ∧ s'.totalBytes ≤ maxArchiveTotalBytes

section

variable {k : Nat} {s s' : ArchiveState}

theorem Advances.refl (s : ArchiveState) : Advances 0 s s :=
  ⟨rfl, rfl, rfl, rfl, List.Subset.refl _, fun h => ⟨Nat.le_refl _, h⟩⟩

theorem Advances.seenName (h : Advances k s s') (name : Text) : Advances k s (s'.seen name) :=
  ⟨h.result, h.totalRecords, h.emittedMembers, h.sent,
    fun _ hp => List.mem_cons_of_mem _ (h.seen hp), h.bytes⟩

theorem Advances.compressed (h : Advances k s s') (size : Nat) :
    Advances k s (s'.compressed size) :=
  ⟨h.result, h.totalRecords, h.emittedMembers, h.sent, h.seen, h.bytes⟩

theorem Advances.charge (h : Advances k s s') (consumed : Nat) :
    Advances k s (s'.account consumed) := by
  refine ⟨h.result, h.totalRecords, h.emittedMembers, h.sent, h.seen, fun hs => ?_⟩
  obtain ⟨hkept, hmax⟩ := h.bytes hs
  show s.totalBytes + k ≤ min _ _ ∧ min _ _ ≤ _
  omega

theorem Advances.keep (h : Advances 0 s s') {consumed : Nat}
    (hconsumed : consumed ≤ maxArchiveTotalBytes - s'.totalBytes) :
    Advances consumed s (s'.account consumed) := by
  refine ⟨h.result, h.totalRecords, h.emittedMembers, h.sent, h.seen, fun hs => ?_⟩
  obtain ⟨hkept, hmax⟩ := h.bytes hs
  show s.totalBytes + consumed ≤ min _ _ ∧ min _ _ ≤ _
  omega

end

/-! ## The two ends -/

section

variable {source : Text} {maxRecords index k : Nat} {opened : OpenedEntry} {s s' : ArchiveState}

def refusal (path : Text) (kind : EvtxArchiveMemberKind) (sha256 : Option Text)
    (outcome : EvtxArchiveMemberOutcome) (gap : EvtxCoverageGap) : Visit :=
  ⟨⟨path, kind, sha256, outcome⟩, some gap, none⟩

theorem about_refusal {path : Text} {kind : EvtxArchiveMemberKind} {sha256 : Option Text}
    {outcome : EvtxArchiveMemberOutcome} {gap : EvtxCoverageGap}
    (hpath : NamesMember source index opened path) (hgap : GapOf source index path gap)
    (hsize : sha256.isSome → contentLength opened ≤ maxArchiveMemberBytes) :
    About source index opened (refusal path kind sha256 outcome gap) := by
  refine ⟨hpath, .inl rfl, ?_, ?_, ?_, ?_⟩
  · rintro _ ⟨⟩
    exact hgap
  · rintro _ ⟨⟩
  · rintro _ ⟨⟩
  · rw [Visit.kept]
    split_ifs with hsome
    · exact hsize hsome
    · exact Nat.zero_le _

theorem steps_refusal {path : Text} {kind : EvtxArchiveMemberKind} {sha256 : Option Text}
    {outcome : EvtxArchiveMemberOutcome} {gap : EvtxCoverageGap} (h : Advances k s s')
    (hkept : (if sha256.isSome then contentLength opened else 0) = k) (parseErrors : Nat) :
    Steps source maxRecords opened (refusal path kind sha256 outcome gap) s
      { s' with result := (pushExistingGap { pushMetadata s'.result path kind sha256 outcome with
          parseErrors := parseErrors } gap) } where
  metadata := by
    rw [pushExistingGap_metadata]
    show s'.result.metadata ++ _ = _
    rw [h.result]
    rfl
  reports gaps hreports := by
    have hcounted : Reports { pushMetadata s'.result path kind sha256 outcome with
        parseErrors := parseErrors } gaps := by
      rw [h.result]
      exact ⟨hreports.coverage, hreports.omitted⟩
    exact hcounted.push gap
  sent := by
    show s'.sent = s.sent ++ []
    rw [h.sent, List.append_nil]
  emittedMembers := h.emittedMembers
  totalRecords := h.totalRecords
  recordBudget hrecords := h.totalRecords.trans_le hrecords
  byteBudget hbytes := by
    obtain rfl := hkept
    exact h.bytes hbytes
  seen := h.seen
  fresh := by rintro _ ⟨⟩

def delivery (label : Text) (kind : EvtxArchiveMemberKind) (digest : Text) (parsed : ParsedFile) :
    Visit :=
  ⟨⟨label, kind, some digest, parsedMemberOutcome parsed⟩, none, some ⟨label, parsed⟩⟩

theorem about_delivery {name : Text} {kind : EvtxArchiveMemberKind} {digest : Text}
    {parsed : ParsedFile} (hpath : NamesMember source index opened (memberLabel source name))
    (hname : SafeRelativePath name) (hparsed : Explained parsed)
    (hsize : contentLength opened ≤ maxArchiveMemberBytes) :
    About source index opened (delivery (memberLabel source name) kind digest parsed) := by
  refine ⟨hpath, .inr rfl, ?_, ?_, ?_, hsize⟩
  · rintro _ ⟨⟩
  · rintro _ ⟨⟩
    exact ⟨rfl, name, hname, rfl⟩
  · rintro _ ⟨⟩ houtcome
    exact coverageGaps_of_outcome hparsed houtcome

theorem steps_delivery {name : Text} {kind : EvtxArchiveMemberKind} {digest : Text}
    {parsed : ParsedFile} (h : Advances (contentLength opened) s s')
    (hnew : toAsciiLowercase name ∉ s.seenPaths) (hseen : toAsciiLowercase name ∈ s'.seenPaths)
    (hrecords : parsed.records.length ≤ maxRecords - s'.totalRecords) :
    Steps source maxRecords opened (delivery (memberLabel source name) kind digest parsed) s
      (s'.send (memberLabel source name) kind digest parsed) where
  metadata := by
    show s'.result.metadata ++ _ = _
    rw [h.result]
    rfl
  reports gaps hreports := by
    show Reports (pushMetadata s'.result _ _ _ _) (gaps ++ [])
    rw [List.append_nil, h.result]
    exact hreports.pushMetadata ..
  sent := by
    show s'.sent ++ _ = _
    rw [h.sent]
    rfl
  emittedMembers := by
    show s'.emittedMembers + 1 = _
    rw [h.emittedMembers]
    rfl
  totalRecords := by
    show s'.totalRecords + parsed.records.length = _
    rw [h.totalRecords]
    rfl
  recordBudget hmax := by
    show s'.totalRecords + parsed.records.length ≤ maxRecords
    rw [h.totalRecords] at hrecords ⊢
    omega
  byteBudget := h.bytes
  seen := h.seen
  fresh := by
    rintro _ ⟨⟩
    exact ⟨name, rfl, hnew, hseen⟩

end

/-! ## Admission -/

/-- A member that may be read: its name is new, and the limit is within what is
left. -/
structure Admits (name : Text) (entry : ZipEntry) (s s' : ArchiveState) (a : Admitted) : Prop where
  advances : Advances 0 s s'
  sameEntry : a.entry = entry
  sameName : a.name = name
  fresh : toAsciiLowercase name ∉ s.seenPaths
  seen : toAsciiLowercase name ∈ s'.seenPaths
  limit : a.limit = min maxArchiveMemberBytes (maxArchiveTotalBytes - s'.totalBytes)

theorem admitNamed_cases (source : Text) (maxRecords : Nat) (s : ArchiveState) (entry : ZipEntry)
    (name : Text) :
    (∃ s₁ kind outcome gapKind reason, Advances 0 s s₁ ∧
      admitNamed source maxRecords s entry name = .error (s₁.refuse (memberLabel source name) kind
        none outcome (memberLabel source name) gapKind reason)) ∨
    ∃ s₁ a, Admits name entry s s₁ a ∧ admitNamed source maxRecords s entry name = .ok (s₁, a) := by
  have hseen := (Advances.refl s).seenName name
  have hcompressed := hseen.compressed entry.compressedSize
  unfold admitNamed
  extract_lets label refuse s₁ s₂ remaining
  by_cases hlink : isSymbolicLink entry
  · rw [if_pos hlink]
    exact .inl ⟨s, _, _, _, _, .refl s, rfl⟩
  rw [if_neg hlink]
  by_cases hduplicate : toAsciiLowercase name ∈ s.seenPaths
  · rw [if_pos hduplicate]
    exact .inl ⟨s, _, _, _, _, .refl s, rfl⟩
  rw [if_neg hduplicate]
  split_ifs
  · exact .inl ⟨s₁, _, _, _, _, hseen, rfl⟩
  · exact .inl ⟨s₁, _, _, _, _, hseen, rfl⟩
  · exact .inl ⟨s₁, _, _, _, _, hseen, rfl⟩
  · exact .inl ⟨s₁, _, _, _, _, hseen, rfl⟩
  · exact .inl ⟨s₁, _, _, _, _, hseen, rfl⟩
  · exact .inl ⟨s₂, _, _, _, _, hcompressed, rfl⟩
  · exact .inl ⟨s₂, _, _, _, _, hcompressed, rfl⟩
  · exact .inr ⟨s₂, _, ⟨hcompressed, rfl, rfl, hduplicate, List.mem_cons_self, rfl⟩, rfl⟩
  · exact .inl ⟨s₁, _, _, _, _, hseen, rfl⟩

section

variable (source : Text) (maxRecords index : Nat) (opened : OpenedEntry) (s : ArchiveState)

def Accounted (s' : ArchiveState) : Prop :=
  ∃ v, About source index opened v ∧ Steps source maxRecords opened v s s'

variable {source maxRecords index opened s}

theorem accounted_refuse {k : Nat} {s₁ : ArchiveState} {path gapSource reason : Text}
    {kind : EvtxArchiveMemberKind} {sha256 : Option Text} {outcome : EvtxArchiveMemberOutcome}
    {gapKind : EvtxCoverageGapKind} (h : Advances k s s₁)
    (hpath : NamesMember source index opened path)
    (hgap : GapOf source index path (.new gapSource gapKind reason))
    (hkept : (if sha256.isSome then contentLength opened else 0) = k)
    (hsize : sha256.isSome → contentLength opened ≤ maxArchiveMemberBytes) :
    Accounted source maxRecords index opened s
      (s₁.refuse path kind sha256 outcome gapSource gapKind reason) :=
  ⟨refusal path kind sha256 outcome (.new gapSource gapKind reason),
    about_refusal hpath hgap hsize, steps_refusal h hkept _⟩

theorem accounted_admit {s' : ArchiveState}
    (h : admitMember source maxRecords s index opened = .error s') :
    Accounted source maxRecords index opened s s' := by
  have hnone : ∀ {α : Type}, (if (none : Option α).isSome then contentLength opened else 0) = 0 :=
    rfl
  cases opened with
  | error error =>
    obtain rfl := Except.error.inj h
    refine accounted_refuse (.refl s) (.inl rfl) (.inr ⟨rfl, ?_⟩) hnone
      (fun hsome => by cases hsome)
    exact ⟨"could not be opened: ".toList ++ error, by simp [EvtxCoverageGap.new]⟩
  | ok entry =>
    dsimp only [admitMember] at h
    cases hname : validateMemberName entry.rawName with
    | none =>
      rw [hname] at h
      obtain rfl := Except.error.inj h
      refine accounted_refuse (.refl s) ?_ (.inl rfl) hnone (fun hsome => by cases hsome)
      split_ifs
      · exact .inl rfl
      · exact .inr ⟨entry, rfl, .inl rfl⟩
    | some name =>
      rw [hname] at h
      change admitNamed source maxRecords s entry name = _ at h
      obtain ⟨s₁, kind, outcome, gapKind, reason, hadvances, heq⟩ | ⟨s₁, a, -, heq⟩ :=
        admitNamed_cases source maxRecords s entry name
      · rw [heq] at h
        obtain rfl := Except.error.inj h
        exact accounted_refuse hadvances (.inr ⟨entry, rfl, .inr ⟨name, hname, rfl⟩⟩) (.inl rfl)
          hnone (fun hsome => by cases hsome)
      · rw [heq] at h
        cases h

theorem admits_of_admit {s₁ : ArchiveState} {a : Admitted}
    (h : admitMember source maxRecords s index opened = .ok (s₁, a)) :
    ∃ entry, opened = .ok entry ∧ validateMemberName entry.rawName = some a.name ∧
      Admits a.name entry s s₁ a := by
  cases opened with
  | error error => cases h
  | ok entry =>
    dsimp only [admitMember] at h
    cases hname : validateMemberName entry.rawName with
    | none =>
      rw [hname] at h
      cases h
    | some name =>
      rw [hname] at h
      change admitNamed source maxRecords s entry name = _ at h
      obtain ⟨s₂, kind, outcome, gapKind, reason, -, heq⟩ | ⟨s₂, b, hadmits, heq⟩ :=
        admitNamed_cases source maxRecords s entry name
      · rw [heq] at h
        cases h
      · rw [heq] at h
        obtain ⟨rfl, rfl⟩ := Prod.mk.inj (Except.ok.inj h)
        exact ⟨entry, rfl, hadmits.sameName ▸ hname, hadmits.sameName ▸ hadmits⟩

end

/-! ## Reading an admitted member -/

section

variable {host : MemberHost} {emit : List ArchiveMember → Bool} {source : Text}
  {maxRecords index : Nat} {s s₁ : ArchiveState} {entry : ZipEntry} {a : Admitted}

theorem namesMember_admitted (hname : validateMemberName entry.rawName = some a.name) :
    NamesMember source index (.ok entry) (memberLabel source a.name) :=
  .inr ⟨entry, rfl, .inr ⟨a.name, hname, rfl⟩⟩

theorem Admits.within (h : Admits a.name entry s s₁ a) {limit n : Nat} (hlimit : limit ≤ a.limit)
    (hn : n ≤ limit) : n ≤ maxArchiveMemberBytes ∧ n ≤ maxArchiveTotalBytes - s₁.totalBytes := by
  have hmin := h.limit
  omega

theorem accounted_refuseRead (h : Admits a.name entry s s₁ a)
    (hname : validateMemberName entry.rawName = some a.name) (kind : EvtxArchiveMemberKind)
    (what : Text) (error : MemberReadError) :
    Accounted source maxRecords index (.ok entry) s
      (refuseRead s₁ (memberLabel source a.name) kind what error) :=
  accounted_refuse (h.advances.charge _) (namesMember_admitted hname) (.inl rfl) rfl
    (fun hsome => by cases hsome)

theorem accounted_sendBounded (h : Admits a.name entry s s₁ a)
    (hname : validateMemberName entry.rawName = some a.name) {s₂ : ArchiveState}
    (hadvances : Advances (contentLength (.ok entry)) s s₂) (hpaths : s₂.seenPaths = s₁.seenPaths)
    (hsize : contentLength (.ok entry) ≤ maxArchiveMemberBytes) (kind : EvtxArchiveMemberKind)
    (digest : Text) {parsed : ParsedFile} (hparsed : Explained parsed) :
    Accounted source maxRecords index (.ok entry) s
      (sendBounded emit maxRecords s₂ (memberLabel source a.name) kind digest parsed).1 := by
  have hexplained := explained_boundArchiveRecords hparsed (maxRecords - s₂.totalRecords)
    (memberLabel source a.name) maxRecords
  refine ⟨delivery (memberLabel source a.name) kind digest (boundArchiveRecords parsed
    (maxRecords - s₂.totalRecords) (memberLabel source a.name) maxRecords), ?_, ?_⟩
  · exact about_delivery (namesMember_admitted hname) (validateMemberName_safe hname)
      hexplained hsize
  · exact steps_delivery hadvances h.fresh (hpaths ▸ h.seen) (length_boundArchiveRecords ..)

theorem accounted_visitText (h : Admits a.name entry s s₁ a)
    (hname : validateMemberName entry.rawName = some a.name) :
    Accounted source maxRecords index (.ok entry) s
      (visitText host emit maxRecords s₁ (memberLabel source a.name) a).1 := by
  unfold visitText
  cases hread : readMemberBytes a.entry.reader (min a.limit maxArchiveTextParseBytes) with
  | error error => exact accounted_refuseRead h hname _ _ error
  | ok bytes =>
    obtain ⟨rfl, hlen⟩ := readMemberBytes_ok hread
    rw [h.sameEntry] at hlen ⊢
    have hfits := h.within (Nat.min_le_left _ _) hlen
    have hkeep := h.advances.keep hfits.2
    dsimp only
    cases hparse : parseTextMember host entry.reader.content (memberLabel source a.name)
        (maxRecords - (s₁.account entry.reader.content.length).totalRecords) with
    | error error =>
      exact accounted_refuse hkeep (namesMember_admitted hname) (.inl rfl) rfl (fun _ => hfits.1)
    | ok parsed =>
      exact accounted_sendBounded h hname hkeep rfl hfits.1 _ _ (explained_parseTextMember hparse)

theorem accounted_visitInventory (h : Admits a.name entry s s₁ a)
    (hname : validateMemberName entry.rawName = some a.name) :
    Accounted source maxRecords index (.ok entry) s
      (visitInventory host s₁ (memberLabel source a.name) a).1 := by
  unfold visitInventory
  cases hread : readMemberDigest host.sha256Hex a.entry.reader a.limit with
  | error error => exact accounted_refuseRead h hname _ _ error
  | ok read =>
    obtain ⟨digest, readBytes⟩ := read
    obtain ⟨-, rfl, hlen⟩ := readMemberDigest_ok hread
    rw [h.sameEntry] at hlen ⊢
    have hfits := h.within (Nat.le_refl _) hlen
    exact accounted_refuse (h.advances.keep hfits.2) (namesMember_admitted hname) (.inl rfl) rfl
      (fun _ => hfits.1)

theorem accounted_visitEvtx (h : Admits a.name entry s s₁ a)
    (hname : validateMemberName entry.rawName = some a.name) :
    Accounted source maxRecords index (.ok entry) s
      (visitEvtx host emit maxRecords s₁ (memberLabel source a.name) a).1 := by
  unfold visitEvtx
  cases hread : readMemberBytes a.entry.reader a.limit with
  | error error => exact accounted_refuseRead h hname _ _ error
  | ok bytes =>
    obtain ⟨rfl, hlen⟩ := readMemberBytes_ok hread
    rw [h.sameEntry] at hlen ⊢
    have hfits := h.within (Nat.le_refl _) hlen
    have hkeep := h.advances.keep hfits.2
    dsimp only
    cases hparse : parseEvtxBuffer host entry.reader.content (memberLabel source a.name) with
    | error gap =>
      refine ⟨refusal (memberLabel source a.name) .evtx (some (host.sha256Hex entry.reader.content))
        .malformed _, about_refusal (namesMember_admitted hname) (.inl ?_) (fun _ => hfits.1),
        steps_refusal hkeep rfl _⟩
      have hsource := source_of_parseEvtxBuffer hparse
      exact hsource
    | ok parsed =>
      exact accounted_sendBounded h hname hkeep rfl hfits.1 _ _ (explained_parseEvtxBuffer hparse)

theorem accounted_visit (host : MemberHost) (emit : List ArchiveMember → Bool) (source : Text)
    (maxRecords : Nat) (s : ArchiveState) (index : Nat) (opened : OpenedEntry) :
    Accounted source maxRecords index opened s
      (visit host emit source maxRecords s index opened).1 := by
  unfold visit
  cases hadmit : admitMember source maxRecords s index opened with
  | error s' => exact accounted_admit hadmit
  | ok r =>
    obtain ⟨s₁, a⟩ := r
    obtain ⟨entry, rfl, hname, hadmits⟩ := admits_of_admit hadmit
    dsimp only
    split_ifs
    · exact accounted_visitEvtx hadmits hname
    · exact accounted_visitText hadmits hname
    · exact accounted_visitInventory hadmits hname

theorem visit_goes_on (hemit : ∀ sent, emit sent = true) (opened : OpenedEntry) :
    (visit host emit source maxRecords s index opened).2 = true := by
  unfold visit
  cases admitMember source maxRecords s index opened with
  | error s' => rfl
  | ok r =>
    obtain ⟨s₁, a⟩ := r
    dsimp only
    split_ifs
    · unfold visitEvtx
      cases readMemberBytes a.entry.reader a.limit with
      | error error => rfl
      | ok bytes =>
        dsimp only
        cases parseEvtxBuffer host bytes (memberLabel source a.name) with
        | error gap => rfl
        | ok parsed => exact hemit _
    · unfold visitText
      cases readMemberBytes a.entry.reader (min a.limit maxArchiveTextParseBytes) with
      | error error => rfl
      | ok bytes =>
        dsimp only
        cases parseTextMember host bytes (memberLabel source a.name)
            (maxRecords - (s₁.account bytes.length).totalRecords) with
        | error error => rfl
        | ok parsed => exact hemit _
    · unfold visitInventory
      cases readMemberDigest host.sha256Hex a.entry.reader a.limit with
      | error error => rfl
      | ok read => rfl

end

/-! ## The whole intake -/

/-- What was visited accounts for the members and for the state. -/
structure Accounts (source : Text) (maxRecords : Nat) (archive : List OpenedEntry)
    (visits : List Visit) (s : ArchiveState) : Prop where
  length : visits.length = archive.length
  about : ∀ i opened v, archive[i]? = some opened → visits[i]? = some v → About source i opened v
  metadata : s.result.metadata = visits.map (·.member)
  reports : Reports s.result (visits.filterMap (·.gap))
  sent : s.sent = visits.filterMap (·.emitted)
  emittedMembers : s.emittedMembers = s.sent.length
  totalRecords : s.totalRecords = (s.sent.map fun m => m.parsed.records.length).sum
  recordBudget : s.totalRecords ≤ maxRecords
  kept : (List.zipWith (fun opened v => v.kept opened) archive visits).sum ≤ s.totalBytes
  byteBudget : s.totalBytes ≤ maxArchiveTotalBytes
  names : ∃ names : List Text, s.sent.map (·.sourceLabel) = names.map (memberLabel source) ∧
    (names.map toAsciiLowercase).Nodup ∧ names.map toAsciiLowercase ⊆ s.seenPaths

section

variable {source : Text} {maxRecords : Nat} {archive : List OpenedEntry} {visits : List Visit}
  {s s' : ArchiveState}

theorem accounts_start (source : Text) (maxRecords : Nat) : Accounts source maxRecords [] [] {} :=
  ⟨rfl, fun _ _ _ h => (nomatch h), rfl, reports_empty, rfl, rfl, rfl, Nat.zero_le _, Nat.zero_le _,
    Nat.zero_le _, [], rfl, List.nodup_nil, List.nil_subset _⟩

theorem filterMap_concat {α β : Type} (f : α → Option β) (xs : List α) (x : α) :
    (xs ++ [x]).filterMap f = xs.filterMap f ++ (f x).toList := by
  rw [List.filterMap_append]
  cases h : f x with
  | none => rw [List.filterMap_cons_none h, List.filterMap_nil, Option.toList_none]
  | some y => rw [List.filterMap_cons_some h, List.filterMap_nil, Option.toList_some]

theorem names_step {opened : OpenedEntry} {v : Visit}
    (hstep : Steps source maxRecords opened v s s')
    {names : List Text} (hlabels : s.sent.map (·.sourceLabel) = names.map (memberLabel source))
    (hnodup : (names.map toAsciiLowercase).Nodup)
    (hseen : names.map toAsciiLowercase ⊆ s.seenPaths) :
    ∃ names' : List Text, s'.sent.map (·.sourceLabel) = names'.map (memberLabel source) ∧
      (names'.map toAsciiLowercase).Nodup ∧ names'.map toAsciiLowercase ⊆ s'.seenPaths := by
  have hsent := hstep.sent
  cases hemitted : v.emitted with
  | none =>
    rw [hemitted, Option.toList_none, List.append_nil] at hsent
    exact ⟨names, hsent ▸ hlabels, hnodup, List.Subset.trans hseen hstep.seen⟩
  | some m =>
    rw [hemitted, Option.toList_some] at hsent
    obtain ⟨name, hlabel, hnew, hlisted⟩ := hstep.fresh m hemitted
    refine ⟨names ++ [name], ?_, ?_, ?_⟩
    · rw [hsent, List.map_append, List.map_append, hlabels, List.map_singleton, hlabel,
        List.map_singleton]
    · rw [List.map_append, List.map_singleton]
      refine hnodup.append (List.nodup_singleton _) ?_
      intro p hp hname
      rw [List.mem_singleton] at hname
      exact hnew (hname ▸ hseen hp)
    · rw [List.map_append, List.map_singleton]
      refine List.append_subset.mpr ⟨List.Subset.trans hseen hstep.seen, ?_⟩
      exact List.cons_subset.mpr ⟨hlisted, List.nil_subset _⟩

theorem Accounts.step (h : Accounts source maxRecords archive visits s) {opened : OpenedEntry}
    {v : Visit} (habout : About source archive.length opened v)
    (hstep : Steps source maxRecords opened v s s') :
    Accounts source maxRecords (archive ++ [opened]) (visits ++ [v]) s' where
  length := by
    rw [List.length_append, List.length_append, h.length]
    rfl
  about i opened' v' hopened hv := by
    by_cases hi : i < archive.length
    · rw [List.getElem?_append_left hi] at hopened
      rw [List.getElem?_append_left (h.length ▸ hi)] at hv
      exact h.about i opened' v' hopened hv
    · rw [List.getElem?_append_right (by omega), List.getElem?_singleton] at hopened
      rw [List.getElem?_append_right (by rw [h.length]; omega), List.getElem?_singleton,
        h.length] at hv
      split_ifs at hopened hv with hlast
      cases hopened
      cases hv
      obtain rfl : i = archive.length := by omega
      exact habout
  metadata := by rw [hstep.metadata, h.metadata, List.map_append, List.map_singleton]
  reports := by
    rw [filterMap_concat]
    exact hstep.reports _ h.reports
  sent := by rw [hstep.sent, h.sent, filterMap_concat]
  emittedMembers := by rw [hstep.emittedMembers, hstep.sent, List.length_append, h.emittedMembers]
  totalRecords := by
    rw [hstep.totalRecords, hstep.sent, List.map_append, List.sum_append, h.totalRecords]
  recordBudget := hstep.recordBudget h.recordBudget
  kept := by
    rw [List.zipWith_append h.length.symm, List.sum_append, List.zipWith_cons_cons,
      List.zipWith_nil_left, List.sum_singleton]
    have hkept := h.kept
    have hbytes := (hstep.byteBudget h.byteBudget).1
    omega
  byteBudget := (hstep.byteBudget h.byteBudget).2
  names := by
    obtain ⟨names, hlabels, hnodup, hseen⟩ := h.names
    exact names_step hstep hlabels hnodup hseen

theorem accounts_visitAll {host : MemberHost} {emit : List ArchiveMember → Bool}
    (hemit : ∀ sent, emit sent = true) (rest : List OpenedEntry)
    (h : Accounts source maxRecords archive visits s) :
    ∃ visits', Accounts source maxRecords (archive ++ rest) visits'
      (visitAll host emit source maxRecords s archive.length rest) := by
  induction rest generalizing archive visits s with
  | nil => exact ⟨visits, by rwa [List.append_nil]⟩
  | cons opened rest ih =>
    obtain ⟨v, habout, hstep⟩ :=
      accounted_visit host emit source maxRecords s archive.length opened
    obtain ⟨visits', haccounts⟩ := ih (h.step habout hstep)
    rw [List.append_assoc, List.length_append] at haccounts
    rw [visitAll, if_pos (visit_goes_on hemit opened)]
    exact ⟨visits', haccounts⟩

/-- A visit that is not judged complete is told of: in the result, or beside the
records of the member. -/
theorem Accounts.told (h : Accounts source maxRecords archive visits s) {i : Nat} {v : Visit}
    (hv : visits[i]? = some v) (houtcome : v.member.outcome ≠ .parsed) :
    (∃ gap ∈ visits.filterMap (·.gap), GapOf source i v.member.path gap) ∨
      ∃ m ∈ s.sent, m.sourceLabel = v.member.path ∧ m.parsed.coverageGaps ≠ [] := by
  have hi : i < archive.length := h.length ▸ (List.getElem?_eq_some_iff.mp hv).1
  have habout := h.about i _ v (List.getElem?_eq_getElem hi) hv
  have hmem := List.mem_of_getElem? hv
  rcases habout.ends with hgap | hemitted
  · obtain ⟨gap, hgap⟩ := Option.isSome_iff_exists.mp hgap
    exact .inl ⟨gap, List.mem_filterMap.mpr ⟨v, hmem, hgap⟩, habout.gapOf gap hgap⟩
  · obtain ⟨m, hm⟩ := Option.isSome_iff_exists.mp hemitted
    refine .inr ⟨m, ?_, (habout.label m hm).1, habout.explained m hm houtcome⟩
    rw [h.sent]
    exact List.mem_filterMap.mpr ⟨v, hmem, hm⟩

theorem Accounts.coverage_eq_nil (h : Accounts source maxRecords archive visits s)
    (hemitted : s.emittedMembers = 0) (hcoverage : s.result.coverage = []) : archive = [] := by
  cases hvisits : visits with
  | nil => exact List.length_eq_zero_iff.mp (by rw [← h.length, hvisits]; rfl)
  | cons v rest =>
    have hlen := h.length
    rw [hvisits, List.length_cons] at hlen
    have hi : 0 < archive.length := by omega
    have hv : visits[0]? = some v := by rw [hvisits]; rfl
    have habout := h.about 0 _ v (List.getElem?_eq_getElem hi) hv
    rcases habout.ends with hgap | hsent
    · obtain ⟨gap, hgap⟩ := Option.isSome_iff_exists.mp hgap
      have hreported := h.reports.coverage
      rw [hcoverage, hvisits, List.filterMap_cons_some hgap] at hreported
      exact absurd hreported.symm (Collections.coalesce_ne_nil (List.cons_ne_nil _ _))
    · obtain ⟨m, hm⟩ := Option.isSome_iff_exists.mp hsent
      have hcount := h.emittedMembers
      rw [h.sent, hvisits, List.filterMap_cons_some hm, hemitted, List.length_cons] at hcount
      omega

end

/-! ## The report of the intake -/

/-- What the intake of an archive promises: an entry for every member in order,
the budgets, labels that are told apart, and a gap for whatever is missing. -/
structure IntakeReport (source : Text) (maxRecords : Nat) (archive : List OpenedEntry)
    (visits : List Visit) (result : ArchiveParseResult) (sent : List ArchiveMember) : Prop where
  metadata : result.metadata = visits.map (·.member)
  onePerMember : visits.length = archive.length
  path : ∀ (i : Nat) (opened : OpenedEntry) (v : Visit), archive[i]? = some opened →
    visits[i]? = some v → NamesMember source i opened v.member.path
  records : (sent.map fun m => m.parsed.records.length).sum ≤ maxRecords
  totalBytes : (List.zipWith (fun opened v => v.kept opened) archive visits).sum ≤
    maxArchiveTotalBytes
  memberBytes : ∀ (i : Nat) (opened : OpenedEntry) (v : Visit), archive[i]? = some opened →
    visits[i]? = some v →
    v.kept opened ≤ maxArchiveMemberBytes
  sentBy : sent = visits.filterMap (·.emitted)
  labels : (sent.map fun m => toAsciiLowercase m.sourceLabel).Nodup
  safe : ∀ m ∈ sent, ∃ name, SafeRelativePath name ∧ m.sourceLabel = memberLabel source name
  told : ∀ (i : Nat) (v : Visit), visits[i]? = some v → v.member.outcome ≠ .parsed →
    (∃ gap ∈ result.coverage, GapOf source i v.member.path gap) ∨
      ∃ m ∈ sent, m.sourceLabel = v.member.path ∧ m.parsed.coverageGaps ≠ []
  summary : Reports result (visits.filterMap (·.gap) ++
    if archive = [] then [.new source .empty emptyArchiveReason] else [])
  coverage : result.coverage.length ≤ maxArchiveCoverage

section

variable {source : Text} {maxRecords : Nat} {archive : List OpenedEntry} {visits : List Visit}
  {s : ArchiveState}

theorem toAsciiLowercase_append (a b : Text) :
    toAsciiLowercase (a ++ b) = toAsciiLowercase a ++ toAsciiLowercase b := List.map_append

theorem Accounts.labels (h : Accounts source maxRecords archive visits s) :
    (s.sent.map fun m => toAsciiLowercase m.sourceLabel).Nodup := by
  obtain ⟨names, hlabels, hnodup, -⟩ := h.names
  have hmap : (s.sent.map fun m => toAsciiLowercase m.sourceLabel) =
      (names.map toAsciiLowercase).map
        (fun name => toAsciiLowercase (source ++ "::".toList) ++ name) := by
    have hcompose : (s.sent.map fun m => toAsciiLowercase m.sourceLabel) =
        (s.sent.map (·.sourceLabel)).map toAsciiLowercase := (List.map_map ..).symm
    rw [hcompose, hlabels, List.map_map, List.map_map]
    exact List.map_congr_left fun name _ => toAsciiLowercase_append _ _
  rw [hmap]
  exact hnodup.map fun a b => List.append_cancel_left

theorem Accounts.safe (h : Accounts source maxRecords archive visits s) :
    ∀ m ∈ s.sent, ∃ name, SafeRelativePath name ∧ m.sourceLabel = memberLabel source name := by
  intro m hm
  rw [h.sent, List.mem_filterMap] at hm
  obtain ⟨v, hv, hemitted⟩ := hm
  obtain ⟨i, hi⟩ := List.mem_iff_getElem?.mp hv
  have hlt : i < archive.length := h.length ▸ (List.getElem?_eq_some_iff.mp hi).1
  obtain ⟨hlabel, name, hname, hpath⟩ :=
    (h.about i _ v (List.getElem?_eq_getElem hlt) hi).label m hemitted
  exact ⟨name, hname, hlabel.trans hpath⟩

theorem reported_eq (gaps : List EvtxCoverageGap) (h : gaps.length ≤ maxArchiveMembers) :
    reported gaps = gaps :=
  Collections.coalesce_of_le (h.trans (by decide))

theorem closeResult_metadata (source : Text) (s : ArchiveState) :
    (closeResult source s).metadata = s.result.metadata := by
  unfold closeResult
  split
  · dsimp only
    split
    · exact pushGap_metadata ..
    · rfl
  · rfl

theorem Accounts.reports_close (h : Accounts source maxRecords archive visits s) :
    Reports (closeResult source s) (visits.filterMap (·.gap) ++
      if archive = [] then [.new source .empty emptyArchiveReason] else []) := by
  unfold closeResult
  by_cases harchive : archive = []
  · have hvisits : visits = [] := List.length_eq_zero_iff.mp (by rw [h.length, harchive]; rfl)
    have hemitted : s.emittedMembers = 0 := by
      rw [h.emittedMembers, h.sent, hvisits]
      rfl
    have hcoverage : s.result.coverage = [] := by
      rw [h.reports.coverage, hvisits]
      rfl
    rw [if_pos harchive, if_pos hemitted]
    have hpush := h.reports.pushGap source .empty emptyArchiveReason
    refine ⟨?_, ?_⟩
    · rw [← hpush.coverage, hcoverage]
      rfl
    · rw [← hpush.omitted, hcoverage]
      rfl
  · rw [if_neg harchive, List.append_nil]
    by_cases hemitted : s.emittedMembers = 0
    · have hcoverage : s.result.coverage.isEmpty = false := by
        rw [List.isEmpty_eq_false_iff]
        exact fun hnil => harchive (h.coverage_eq_nil hemitted hnil)
      rw [if_pos hemitted, hcoverage]
      exact ⟨h.reports.coverage, h.reports.omitted⟩
    · rw [if_neg hemitted]
      exact h.reports

end

/-- An archive that opens with at most as many members as are allowed is reported
in full to a receiver that takes every member. -/
theorem parseArchiveBatches_reports (host : MemberHost) (emit : List ArchiveMember → Bool)
    (file : ArchiveFile) (maxRecords : Nat) {archive : List OpenedEntry}
    (hopen : openArchive file = .ok archive) (hmembers : archive.length ≤ maxArchiveMembers)
    (hemit : ∀ sent, emit sent = true) :
    ∃ result sent visits, parseArchiveBatches host emit file maxRecords = .ok (result, sent) ∧
      IntakeReport file.path maxRecords archive visits result sent := by
  obtain ⟨visits, h⟩ := @accounts_visitAll _ _ _ _ _ host emit hemit archive
    (accounts_start file.path maxRecords)
  rw [List.nil_append] at h
  generalize hstate : visitAll host emit file.path maxRecords {}
    ([] : List OpenedEntry).length archive = s at h
  have hrun : parseArchiveBatches host emit file maxRecords =
      .ok (closeResult file.path s, s.sent) := by
    unfold parseArchiveBatches
    rw [hopen]
    dsimp only
    rw [List.take_of_length_le hmembers, refuseRest, if_pos hmembers]
    exact congrArg (fun s => Except.ok (closeResult file.path s, s.sent)) hstate
  have hsummary := h.reports_close
  refine ⟨closeResult file.path s, s.sent, visits, hrun, ?_⟩
  exact {
    metadata := (closeResult_metadata _ _).trans h.metadata
    onePerMember := h.length
    path := fun i opened v hopened hv => (h.about i opened v hopened hv).path
    records := h.totalRecords ▸ h.recordBudget
    totalBytes := h.kept.trans h.byteBudget
    memberBytes := fun i opened v hopened hv => (h.about i opened v hopened hv).size
    sentBy := h.sent
    labels := h.labels
    safe := h.safe
    told := by
      intro i v hv houtcome
      rcases h.told hv houtcome with ⟨gap, hgap, hof⟩ | hsent
      · refine .inl ⟨gap, ?_, hof⟩
        have hi : i < archive.length := h.length ▸ (List.getElem?_eq_some_iff.mp hv).1
        have hne : archive ≠ [] := List.ne_nil_of_length_pos (by omega)
        have hlen : (visits.filterMap (·.gap)).length ≤ maxArchiveMembers :=
          (List.length_filterMap_le _ _).trans (h.length ▸ hmembers)
        rw [hsummary.coverage, if_neg hne, List.append_nil, reported_eq _ hlen]
        exact hgap
      · exact .inr hsent
    summary := hsummary
    coverage := by
      rw [hsummary.coverage]
      exact length_reported_le _ }

section

/-- A host without parsers, and an archive of a directory and one file that is not
a log. -/
def plainHost : MemberHost where
  sha256Hex bytes := decimal bytes.length
  decode _ := .error "unknown encoding".toList
  parseContent _ _ _ := ⟨[], 0⟩
  openEvtx _ := .error "not an event file".toList
  eventRow _ _ := .error "no event".toList

def plainArchive : List OpenedEntry :=
  [.ok ⟨"hives/".toList, none, true, 0, 0, ⟨[], none⟩⟩,
    .ok ⟨"hives\\SYSTEM.reg".toList, none, false, 3, 4, ⟨[[1, 2], [3, 4]], none⟩⟩]

def plainFile : ArchiveFile where
  path := "bundle.zip".toList
  openError := none
  directoryInfo := .ok none
  length := .ok 100
  rewindError := none
  zip := .ok plainArchive

theorem parseArchiveBatches_reports_plain :
    ∃ result sent visits, parseArchiveBatches plainHost (fun _ => true) plainFile 10 =
        .ok (result, sent) ∧
      IntakeReport plainFile.path 10 plainArchive visits result sent :=
  parseArchiveBatches_reports plainHost (fun _ => true) plainFile 10 rfl (by decide) fun _ => rfl

end

end Archive
end CmTrace
