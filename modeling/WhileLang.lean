import WhileLang.Document
import WhileLang.Proofs.Budget
import WhileLang.Proofs.History
import WhileLang.Proofs.Interchange
import WhileLang.Proofs.Translation
import WhileLang.Proofs.UniqueSource
import WhileLang.Proofs.Flattening
import WhileLang.Proofs.FullSink
import WhileLang.Proofs.Nesting
import WhileLang.Proofs.ReadBack
import WhileLang.Proofs.Reload
import WhileLang.Proofs.Spelling
import WhileLang.Proofs.Truncation
import WhileLang.Proofs.IntegerRange
import WhileLang.Proofs.CanonicalMap
import WhileLang.Proofs.Contexts
import WhileLang.Proofs.Frame
import WhileLang.Proofs.Locality
import WhileLang.Proofs.Acyclic
import WhileLang.Proofs.Cost
import WhileLang.Proofs.Calls
import WhileLang.Proofs.Unbound
import WhileLang.Proofs.Exactness
