import KafkaScript.Cache.Sweeper
import KafkaScript.Main
import KafkaScript.Proofs.Cache.Eviction
import KafkaScript.Proofs.Cache.HitLaw
import KafkaScript.Proofs.Cache.Inclusion
import KafkaScript.Proofs.Cache.Transparency
import KafkaScript.Proofs.Concatenation
import KafkaScript.Proofs.Boundary
import KafkaScript.Proofs.Coverage
import KafkaScript.Proofs.Fidelity
import KafkaScript.Proofs.Grammar
import KafkaScript.Proofs.Headers
import KafkaScript.Proofs.Inspection
import KafkaScript.Proofs.Layout
import KafkaScript.Proofs.LineEndings
import KafkaScript.Proofs.Marking
import KafkaScript.Proofs.Lookup
import KafkaScript.Proofs.Outline
import KafkaScript.Proofs.Partitions
import KafkaScript.Proofs.Text.Agreement
import KafkaScript.Proofs.Division
import KafkaScript.Proofs.Recognition
import KafkaScript.Proofs.Cache.Sweeper
import KafkaScript.Proofs.Config.Caching
import KafkaScript.Proofs.Scanning
import KafkaScript.Proofs.Anchoring
import KafkaScript.Proofs.Enclosure
import KafkaScript.Proofs.Text.Coordinates
