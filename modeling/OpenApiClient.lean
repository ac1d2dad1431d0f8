import OpenApiClient.Main
import OpenApiClient.Proofs.Walk
import OpenApiClient.Proofs.Growth
import OpenApiClient.Proofs.Pointers
import OpenApiClient.Proofs.Composition
import OpenApiClient.Proofs.Declaration
import OpenApiClient.Proofs.Making
import OpenApiClient.Proofs.Reach
import OpenApiClient.Proofs.Completeness
import OpenApiClient.Proofs.Evaluation
import OpenApiClient.Proofs.Decoding
import OpenApiClient.Proofs.Binding
import OpenApiClient.Proofs.Repetition
import OpenApiClient.Proofs.Assembly
import OpenApiClient.Proofs.Signature
import OpenApiClient.Proofs.Ordering
import OpenApiClient.Proofs.Grouping
import OpenApiClient.Proofs.BodyFields
import OpenApiClient.Proofs.Typing
import OpenApiClient.Proofs.Agreement
import OpenApiClient.Proofs.Placement
import OpenApiClient.Proofs.Finality
import OpenApiClient.Proofs.History
import OpenApiClient.Proofs.Buckets
import OpenApiClient.Proofs.Tagging
import OpenApiClient.Proofs.Provision
import OpenApiClient.Proofs.Linking
import OpenApiClient.Proofs.References
import OpenApiClient.Proofs.Designation
import OpenApiClient.Proofs.Strictness
import OpenApiClient.Proofs.Scope
import OpenApiClient.Proofs.Enumeration
import OpenApiClient.Proofs.Transparency
import OpenApiClient.Proofs.Nullability
import OpenApiClient.Proofs.Members
import OpenApiClient.Proofs.Destinations
import OpenApiClient.Proofs.Failing
import OpenApiClient.Proofs.Reporting
import OpenApiClient.Proofs.Nesting
import OpenApiClient.Proofs.Layout
import OpenApiClient.Proofs.UniqueReading
import OpenApiClient.Proofs.Dependencies
import OpenApiClient.Proofs.Absorption
import OpenApiClient.Proofs.Agenda
import OpenApiClient.Proofs.Termination
import OpenApiClient.Proofs.Chains
import OpenApiClient.Proofs.Answering
import OpenApiClient.Proofs.Precedence
import OpenApiClient.Proofs.Freshness
import OpenApiClient.Proofs.PathTemplates
import OpenApiClient.Proofs.Locals
import OpenApiClient.Proofs.Passage
import OpenApiClient.Proofs.Delivery
import OpenApiClient.Proofs.Preference
import OpenApiClient.Proofs.Utf8
import OpenApiClient.Proofs.Numerals
import OpenApiClient.Proofs.Grammar
import OpenApiClient.Proofs.Reading
import OpenApiClient.Proofs.ProjectFile
import OpenApiClient.Proofs.Scanning
import OpenApiClient.Proofs.Heights
import OpenApiClient.Proofs.Contents
import OpenApiClient.Proofs.Hinting
import OpenApiClient.Proofs.Responding
import OpenApiClient.Proofs.Comments
import OpenApiClient.Proofs.Containment
import OpenApiClient.Proofs.Raising
import OpenApiClient.Proofs.Blame
import OpenApiClient.Proofs.Rejection
import OpenApiClient.Proofs.Keys
import OpenApiClient.Proofs.Literals
