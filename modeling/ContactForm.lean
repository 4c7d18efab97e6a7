import ContactForm.Main
import ContactForm.Json.Pointer
import ContactForm.Proofs.Reloading
import ContactForm.Proofs.Schema.Agreement
import ContactForm.Proofs.Validation.FirstViolation
import ContactForm.Proofs.Validation.Composition
import ContactForm.Proofs.Validation.PlaceOrder
import ContactForm.Proofs.Validation.NameLookup
import ContactForm.Proofs.Erasure
import ContactForm.Proofs.Preparation
import ContactForm.Proofs.Program.Report
import ContactForm.Proofs.EntryPoints
import ContactForm.Proofs.LocatorText
import ContactForm.Proofs.Validation.Accessors
