import NfsmwRuntime.Library.Keyed
import NfsmwRuntime.Install.Sessions

/-!
# What a run that ends well leaves

The marker lists the files that were published. The next run compares their sizes with it, and
then has nothing to do; `verify` reads them all. What neither of them sees is what was there
before, of which a run that commits has to take care itself.
-/

namespace NfsmwRuntime.Install

open Library Process

/-! ## Profiles -/

/-- The plan writes below its commit roots, and its profiles look at nothing else. -/
structure Plan.Within (plan : Plan) (recipe : Recipe) : Prop where
  items : ∀ item ∈ plan.items, item.destination.root ∈ plan.paths
  profiles : ∀ profile ∈ recipe.profiles, ∀ tree tree' : FileTree,
    (∀ t, t.root ∈ plan.paths → tree t = tree' t) →
      profile.validate plan.abi tree = profile.validate plan.abi tree'

section Profiles

variable {recipe : Recipe} {abi : CString} {tree tree' : FileTree} {profiles : List Profile}

theorem matchProfiles_congr
    (h : ∀ profile ∈ profiles, profile.validate abi tree = profile.validate abi tree') :
    Recipe.matchProfiles abi tree profiles = Recipe.matchProfiles abi tree' profiles := by
  induction profiles with
  | nil => rfl
  | cons profile profiles ih =>
    obtain ⟨hfirst, hrest⟩ := List.forall_mem_cons.mp h
    rw [Recipe.matchProfiles, Recipe.matchProfiles, hfirst, ih hrest]

theorem identifyProfile_congr
    (h : ∀ profile ∈ recipe.profiles, profile.validate abi tree = profile.validate abi tree') :
    recipe.identifyProfile abi tree = recipe.identifyProfile abi tree' := by
  rw [Recipe.identifyProfile, Recipe.identifyProfile, matchProfiles_congr h]

theorem matchProfiles_ok {found : List CString × List CString}
    (h : Recipe.matchProfiles abi tree profiles = .ok found) :
    ∀ id ∈ found.1, ∃ profile ∈ profiles, profile.id = id := by
  induction profiles generalizing found with
  | nil =>
    obtain rfl := Except.ok.inj h
    simp
  | cons profile profiles ih =>
    rw [Recipe.matchProfiles] at h
    split at h
    · obtain ⟨rest, hrest, hfound⟩ := bind_eq_ok.mp h
      obtain rfl := Except.ok.inj hfound
      have hids := ih hrest
      simp only [List.mem_cons, forall_eq_or_imp, exists_eq_or_imp]
      exact ⟨.inl trivial, fun id hid => .inr (hids id hid)⟩
    · obtain ⟨rest, hrest, hfound⟩ := bind_eq_ok.mp h
      obtain rfl := Except.ok.inj hfound
      intro id hid
      obtain ⟨p, hp, heq⟩ := ih hrest id hid
      exact ⟨p, List.mem_cons_of_mem _ hp, heq⟩
    · cases h

/-- A profile is found if there are any to be found. -/
theorem identifyProfile_ok {profile : Option CString}
    (h : recipe.identifyProfile abi tree = .ok profile) :
    if recipe.profiles.isEmpty then profile = none
    else ∃ p ∈ recipe.profiles, profile = some p.id := by
  rw [Recipe.identifyProfile] at h
  split_ifs at h ⊢
  · exact (Except.ok.inj h).symm
  · obtain ⟨found, hfound, h⟩ := bind_eq_ok.mp h
    have hids := matchProfiles_ok hfound
    split at h
    · cases h
    · rename_i id heq
      obtain rfl := Except.ok.inj h
      obtain ⟨p, hp, rfl⟩ := hids id (by simp [heq])
      exact ⟨p, hp, rfl⟩
    · cases h

end Profiles

/-! ## The marker of a run -/

section Acceptance

variable {sha256 : List UInt8 → List UInt8} {crc32 : List UInt8 → Nat} {recipe : Recipe}
  {attempt : Attempt} {plan : Plan} {profile : Option CString} {w : World} {V : Version}

/-- The marker is accepted for the sizes of its files, and for their content. -/
structure Accepted (sha256 : List UInt8 → List UInt8) (recipe : Recipe) (w : World) : Prop where
  ready : (markerFastPath recipe w).isSome
  verified : verify sha256 recipe w = .ok ()

theorem newMarker_donorProfile (transactionId : CString) (adopted : Bool) {tree : FileTree}
    {abi : CString} (hprofile : recipe.identifyProfile abi tree = .ok profile)
    (hplan : plan.profile = profile) :
    (newMarker recipe plan transactionId adopted).donorProfile = profile ∧
      (recipe.profiles.isEmpty ∨ ∃ p ∈ recipe.profiles, profile = some p.id) := by
  have hfound := identifyProfile_ok hprofile
  rw [newMarker]
  dsimp only
  split_ifs at hfound ⊢ with hempty
  · exact ⟨hfound.symm, .inl hempty⟩
  · exact ⟨hplan, .inr hfound⟩

/-- A marker is accepted if its items are as it says and its profile is found again. -/
theorem accepted_of_items {transactionId : CString} {adopted : Bool}
    (hmarker : w.marker = some (newMarker recipe plan transactionId adopted))
    (hitems : ∀ item ∈ plan.items, ∃ bytes, w.fileAt .live item.destination = some bytes ∧
      bytes.length = item.size ∧ (item.sha256 = none ∨ item.sha256 = some (sha256 bytes)))
    (hprofile : recipe.identifyProfile plan.abi (w.fileAt .live) = .ok plan.profile) :
    Accepted sha256 recipe w := by
  obtain ⟨hdonor, hknown⟩ := newMarker_donorProfile transactionId adopted hprofile rfl
  refine ⟨?_, ?_⟩
  · have hsizes : ∀ item ∈ (newMarker recipe plan transactionId adopted).items,
        (w.fileAt .live item.destination).map List.length = some item.size := by
      intro _ hmem
      obtain ⟨item, hitem, rfl⟩ := List.mem_map.mp hmem
      obtain ⟨bytes, hbytes, hsize, -⟩ := hitems item hitem
      rw [hbytes, Option.map_some, hsize]
    rw [markerFastPath, hmarker, Option.filter_some, if_pos, Option.isSome_some]
    exact decide_eq_true ⟨rfl, rfl, rfl, hdonor ▸ hknown, hsizes⟩
  · have hverified : (newMarker recipe plan transactionId adopted).items.forM
        (verifyItem sha256 (w.fileAt .live)) = .ok () := by
      refine forM_eq_ok.mpr fun _ hmem => ?_
      obtain ⟨item, hitem, rfl⟩ := List.mem_map.mp hmem
      obtain ⟨bytes, hbytes, hsize, hdigest⟩ := hitems item hitem
      rw [verifyItem, hbytes, require_some, ok_bind, check_of hsize, ok_bind, check_of hdigest]
    have habi : (newMarker recipe plan transactionId adopted).abi = plan.abi := rfl
    rw [verify, hmarker, require_some, ok_bind, hverified, ok_bind, habi, hprofile, ok_bind,
      check_of (.inr hdonor.symm)]

/-- What was adopted is listed with the sizes that it has. -/
theorem Adopted.accepted {transactionId : CString} (h : Adopted recipe transactionId w)
    (hnames : ∀ p files, w.content .live p = some (.folder files) → (files.map Prod.fst).Nodup) :
    Accepted sha256 recipe w := by
  obtain ⟨abi, profile, hprofile, hmarker⟩ := h
  refine accepted_of_items hmarker (fun item hitem => ?_) hprofile
  obtain ⟨root, -, hitem⟩ := List.mem_flatMap.mp hitem
  rw [adoptedItems] at hitem
  split at hitem
  · cases hitem
  · rename_i bytes hcontent
    obtain rfl := List.mem_singleton.mp hitem
    exact ⟨bytes, by simp [World.fileAt, hcontent, Content.lookup], rfl, .inl rfl⟩
  · rename_i files hcontent
    obtain ⟨f, hf, rfl⟩ := List.mem_map.mp hitem
    refine ⟨f.2, ?_, rfl, .inl rfl⟩
    simp only [World.fileAt, hcontent, Option.bind_some, Content.lookup]
    rw [find?_key_eq (hnames _ _ hcontent) hf, Option.map_some]

theorem validateItem_ok {tree : FileTree} {item : Item} {u : Unit}
    (h : validateItem sha256 crc32 true tree item = .ok u) :
    ∃ bytes, tree item.destination = some bytes ∧ bytes.length = item.size ∧
      (item.sha256 = none ∨ item.sha256 = some (sha256 bytes)) := by
  obtain ⟨bytes, hbytes, h⟩ := bind_eq_ok.mp h
  obtain ⟨_, hsize, h⟩ := bind_eq_ok.mp h
  rw [if_pos rfl] at h
  obtain ⟨_, hdigest, -⟩ := bind_eq_ok.mp h
  exact ⟨bytes, require_eq_ok.mp hbytes, check_eq_ok.mp hsize, check_eq_ok.mp hdigest⟩

/-- What was published is listed, and is as it was when it was staged. -/
theorem Certified.accepted {transactionId : CString}
    (h : Certified sha256 crc32 recipe attempt V plan profile) (hwithin : plan.Within recipe)
    (hlive : w.content .live = attempt.result V)
    (hmarker : w.marker = some (newMarker recipe { plan with profile } transactionId false)) :
    Accepted sha256 recipe w := by
  have htree : ∀ t, t.root ∈ plan.paths →
      w.fileAt .live t = Version.fileAt attempt.payload t := by
    intro t ht
    rw [World.fileAt_eq, hlive, Version.fileAt, Version.fileAt, Attempt.result, h.found]
    exact congrArg (Option.bind · _) (Version.exchange_of_mem ht)
  refine accepted_of_items hmarker (fun item hitem => ?_) ?_
  · rw [htree _ (hwithin.items item hitem)]
    exact validateItem_ok (forM_eq_ok.mp h.items item hitem)
  · exact (identifyProfile_congr fun p hp => hwithin.profiles p hp _ _ htree).trans h.profile

/-- Where the marker is accepted, a run tries no operation that could fail. -/
theorem install_idle (hjournal : w.journal = none) (hready : (markerFastPath recipe w).isSome)
    (attempt : Attempt) (fates : List (Fate Cut)) :
    install sha256 crc32 recipe attempt fates w =
      ⟨.ok .alreadyReady, { w with data := none }, fates, []⟩ := by
  obtain ⟨trees, journal, marker, data⟩ := w
  subst hjournal
  have hbranch : ((markerFastPath recipe ⟨trees, none, marker, none⟩).isSome = true) = True :=
    eq_true hready
  simp only [install, recover, Transaction.load, Bind.bind, Process.bind, Process.modify,
    Process.read, Process.pure, hbranch, if_true, List.append_nil]

end Acceptance

/-! ## Runs that commit -/

section Runs

variable {sha256 : List UInt8 → List UInt8} {crc32 : List UInt8 → Nat} {recipe : Recipe}
  {start w : World} {runs : List Run} {attempt : Attempt} {fates : List (Fate Cut)}

theorem install_ok (hstart : start.Fresh) (h : Session sha256 crc32 recipe start runs w)
    (hproper : attempt.Proper sha256 w)
    (hsteady : ∀ tried ∈ (install sha256 crc32 recipe attempt fates w).trace,
      Steady attempt.transactionId tried.1 tried.2) {report : Report}
    (hreport : (install sha256 crc32 recipe attempt fates w).ending = .ok report) :
    Settled sha256 (if report = .committed then attempt.result (w.version sha256)
      else w.version sha256) (install sha256 crc32 recipe attempt fates w).state ∧
      attempt.Reports sha256 crc32 recipe (w.version sha256)
        (install sha256 crc32 recipe attempt fates w).state report := by
  obtain ⟨V, hstands, -⟩ := h.stands hstart
  have hmeets := install_meets hproper hstands hsteady
  rw [hstands.version_eq]
  simpa only [Outcome.Meets, hreport] using hmeets

theorem sampleAttempt_within (plan : Plan) (h : sampleAttempt.plan = .ok plan) :
    plan.Within sampleRecipe := by
  obtain rfl := Except.ok.inj h
  exact ⟨by decide, nofun⟩

theorem sampleSteady : ∀ tried ∈ (install Library.sha256 Library.crc32 sampleRecipe sampleAttempt []
    sampleDisk).trace, Steady sampleAttempt.transactionId tried.1 tried.2 := by
  have hdone : ∀ tried ∈ (install Library.sha256 Library.crc32 sampleRecipe sampleAttempt []
      sampleDisk).trace, ¬ tried.2.IsFailure := by decide +kernel
  exact fun tried h _ => hdone tried h

theorem sampleAttempt_committed : (install Library.sha256 Library.crc32 sampleRecipe
    sampleAttempt [] sampleDisk).ending = .ok .committed := by decide +kernel

end Runs

end NfsmwRuntime.Install
